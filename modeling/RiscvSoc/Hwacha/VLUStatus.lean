import RiscvSoc.Hwacha.VLU

/-!
# What the status of a load says

As long as the sequencer and the memory unit keep their promise, bit `j` of `bw_stat` is set exactly
if the bank has taken element `op.utidx + j` of the load that `VLU` is at. An element that waits in
a queue is not counted yet, since a strip is counted only when all its elements are written; so it
is never before the window. It is not behind it either, since no more than 128 elements are asked
for and not counted. When the last strip is counted, nothing is left in the queues, and the status
is zero again.
-/

namespace RiscvSoc

namespace Hwacha

open SlidingWindow

namespace LoadRecord

variable {r : LoadRecord} {cfg : Strides} {x : Option VLDQEntry}
  {w : Fin 8 → Option BWQInternalEntry} {b : Fin 8} {k : ℕ}

theorem written_note : (r.note cfg x w).Written k ↔
    r.Written k ∨ ∃ b, ∃ e ∈ w b, 8 * e.tag.toNat + b.val = k := by
  simp only [Written, note, List.mem_append, Option.mem_toList, Option.mem_def, or_and_right,
    exists_or]

theorem elements_note : (r.note cfg x w).elements =
    r.elements ++ (x.map fun e => e.info.utidx.toNat).toList := by
  rw [elements, note, List.map_append]
  cases x <;> rfl

theorem mem_elements_note : k ∈ (r.note cfg x w).elements ↔
    k ∈ r.elements ∨ ∃ e ∈ x, e.info.utidx.toNat = k := by
  rw [elements_note, List.mem_append, Option.mem_toList, Option.map_eq_some_iff]
  rfl

theorem returned_note : (r.note cfg x w).returned b =
    r.returned b ++ ((x.filter fun e => e.bank = b).map (VLU.bwEntry r.op cfg)).toList := by
  rw [returned, note, List.filter_append, List.map_append]
  cases x with
  | none => rfl
  | some e =>
    by_cases hb : e.bank = b
    · simp [returned, Option.filter, hb]
    · simp [returned, Option.filter, hb]

theorem map_returned (r : LoadRecord) (b : Fin 8) :
    (r.returned b).map (fun w => 8 * w.tag.toNat + b.val) =
      (r.loaded.filter fun e => e.2.bank = b).map fun e => e.2.info.utidx.toNat := by
  rw [returned, List.map_map]
  refine List.map_congr_left fun e he => ?_
  have hb : e.2.bank = b := by simpa using (List.mem_filter.mp he).2
  rw [← hb]
  exact VLU.utidx_eq e.2

theorem mem_elements_of_returned {e : BWQInternalEntry} (h : e ∈ r.returned b) :
    8 * e.tag.toNat + b.val ∈ r.elements := by
  have hmem := List.mem_map_of_mem (f := fun w => 8 * w.tag.toNat + b.val) h
  rw [map_returned] at hmem
  obtain ⟨e', he', heq⟩ := List.mem_map.mp hmem
  exact List.mem_map.mpr ⟨e', (List.mem_filter.mp he').1, heq⟩

theorem nodup_returned (h : r.elements.Nodup) (b : Fin 8) :
    ((r.returned b).map fun w => 8 * w.tag.toNat + b.val).Nodup := by
  rw [map_returned]
  exact h.sublist (List.filter_sublist.map _)

end LoadRecord

namespace VLU

variable {s : VLU} {i : VLUIn} {b : Fin 8}

/-! ### The queues -/

theorem entered_eq : (s.bwqs b).entered false (s.bwqIn i b) =
    (((s.loaded i).filter fun e => e.bank = b).map (bwEntry s.op i.cfg)).toList := by
  rw [Queue.entered]
  cases hin : i.ldata with
  | none =>
    rw [loaded, bwqIn, hin]
    split <;> rfl
  | some e =>
    have hloaded : s.loaded i = if s.vldqReady i e then some e else none := by
      rw [loaded, hin]
      rfl
    have henq : (s.bwqIn i b).enq = if e.bank = b then some (bwEntry s.op i.cfg e) else none := by
      rw [bwqIn, hin]
      by_cases hb : e.bank = b <;> simp [hb]
    rw [hloaded, henq]
    by_cases hb : e.bank = b
    · subst hb
      rw [vldqReady]
      cases (s.bwqs e.bank).enqReady false (s.bwqIn i e.bank) <;> simp [Option.filter]
    · cases s.vldqReady i e <;> simp [hb]

theorem fifo_step : (s.bwqs b).held ++
      (((s.loaded i).filter fun e => e.bank = b).map (bwEntry s.op i.cfg)).toList =
    (s.written i b).toList ++ ((s.step i).bwqs b).held := by
  have hstep : (s.bwqs b).held ++ (s.bwqs b).entered false (s.bwqIn i b) =
    (s.bwqs b).left false (s.bwqIn i b) ++ ((s.step i).bwqs b).held := Queue.step
  rw [entered_eq] at hstep
  rw [hstep, Queue.left, written]
  congr 1
  show (if i.bwqsReady b then _ else _) = _
  split <;> rfl

theorem mem_held_of_written {w : BWQInternalEntry} (h : w ∈ s.written i b) :
    w ∈ (s.bwqs b).held := by
  rw [written] at h
  split at h
  · rw [Queue.deq_eq_head, if_neg (by simp), List.append_nil] at h
    exact List.mem_of_mem_head? h
  · cases h

theorem written_ne_nil (hheld : (s.bwqs b).held ≠ []) (hready : i.bwqsReady b = true) :
    (s.written i b).toList ≠ [] := by
  obtain ⟨w, l, hl⟩ := List.exists_cons_of_ne_nil hheld
  rw [written, if_pos hready, Queue.deq_eq_head, hl]
  exact List.cons_ne_nil _ _

/-! ### The status -/

theorem available_iff {cnt : BitVec 8} : s.available cnt = true ↔
    cnt.toNat ≤ 8 ∧ ∀ j < cnt.toNat, s.bwStat.getLsbD j = true := by
  rw [available, decide_eq_true_eq, locnt]
  exact le_leadingOnes_iff

/-- A write that is not before the window sets the bit of its element. -/
theorem tracks_update (h : ∀ w ∈ s.written i b, s.op.utidx.toNat ≤ 8 * w.tag.toNat + b.val) :
    Tracks (s.bwStatUpdate i b) s.op.utidx.toNat
      fun k => ∃ w ∈ s.written i b, 8 * w.tag.toNat + b.val = k := by
  rw [bwStatUpdate]
  cases hw : s.written i b with
  | none => exact tracks_zero fun k _ ⟨w, hmem, _⟩ => by cases hmem
  | some w =>
    have hle := h w hw
    have hval : ((w.tag ++ BitVec.ofNat 3 b : BitVec (9 + 3)) - s.op.utidx).toNat =
        8 * w.tag.toNat + b.val - s.op.utidx.toNat := by
      have hcat : (w.tag ++ BitVec.ofNat 3 b : BitVec (9 + 3)).toNat = 8 * w.tag.toNat + b.val := by
        have hbank : (BitVec.ofNat 3 b).toNat = b.val := Nat.mod_eq_of_lt b.isLt
        rw [BitVec.toNat_append, ← Nat.shiftLeft_add_eq_or_of_lt (BitVec.ofNat 3 b).isLt,
          Nat.shiftLeft_eq, hbank, Nat.mul_comm]
      rw [BitVec.toNat_sub_of_le (by rw [BitVec.le_def, hcat]; exact hle), hcat]
    show Tracks ((1 : BitVec 128) <<< (_ : ℕ)) _ _
    rw [hval]
    refine (tracks_one hle).congr fun k => ?_
    simp [eq_comm]

/-- **The completions of a cycle**, where the window was at its beginning. -/
theorem tracks_next {P : ℕ → Prop} (h : Tracks s.bwStat s.op.utidx.toNat P)
    (hw : ∀ b, ∀ w ∈ s.written i b, s.op.utidx.toNat ≤ 8 * w.tag.toNat + b.val) :
    Tracks (s.bwStatNext i) s.op.utidx.toNat
      fun k => P k ∨ ∃ b, ∃ w ∈ s.written i b, 8 * w.tag.toNat + b.val = k := by
  refine (h.foldl_or fun b _ => tracks_update (hw b)).congr fun k => ?_
  simp only [List.mem_finRange, true_and]

theorem bwStatShift_eq (h : i.la.reserve = true → i.la.cnt.toNat ≤ 8) :
    bwStatShift i = (if i.la.reserve then i.la.cnt.toNat else 0) ∧ bwStatShift i ≤ 8 := by
  rw [bwStatShift]
  cases hres : i.la.reserve with
  | false => exact ⟨rfl, Nat.zero_le _⟩
  | true =>
    have hle := h hres
    have hval : (i.la.cnt.setWidth 4).toNat = i.la.cnt.toNat := by
      rw [BitVec.toNat_setWidth]
      exact Nat.mod_eq_of_lt (by omega)
    rw [if_pos rfl, if_pos rfl, hval]
    exact ⟨rfl, hle⟩

/-! ### One cycle of a load -/

theorem step_op (hbusy : s.busy = true) : (s.step i).op =
    { s.op with utidx := if i.la.reserve then s.utidxNext i else s.op.utidx } := by
  rw [step, hbusy]
  cases i.la.reserve <;> rfl

theorem step_bwStat (hbusy : s.busy = true) (h : i.la.reserve = true → i.la.cnt.toNat ≤ 8) :
    (s.step i).bwStat = s.bwStatNext i >>> (if i.la.reserve then i.la.cnt.toNat else 0) := by
  obtain ⟨hval, hle⟩ := bwStatShift_eq h
  show (if s.busy then if bwStatShift i ≤ 8 then s.bwStatNext i >>> bwStatShift i else 0
    else 0) = _
  rw [hbusy, if_pos rfl, if_pos hle, hval]

theorem toNat_step_utidx (hbusy : s.busy = true)
    (h : i.la.reserve = true → s.op.utidx.toNat + i.la.cnt.toNat ≤ s.op.vlen.toNat) :
    (s.step i).op.utidx.toNat =
      s.op.utidx.toNat + if i.la.reserve then i.la.cnt.toNat else 0 := by
  rw [step_op hbusy]
  cases hres : i.la.reserve with
  | false => rfl
  | true =>
    have hle := h hres
    have hvlen := s.op.vlen.isLt
    have hcnt : (i.la.cnt.setWidth 12).toNat = i.la.cnt.toNat := by
      rw [BitVec.toNat_setWidth]
      exact Nat.mod_eq_of_lt (by omega)
    show (s.utidxNext i).toNat = _
    rw [utidxNext, BitVec.toNat_add, hcnt]
    exact Nat.mod_eq_of_lt (by omega)

end VLU

namespace LoadPath

variable {s : VLU} {i : VLUIn} {r : LoadRecord} {n m k : ℕ} {b : Fin 8} {w : BWQInternalEntry}

/-! ### The load that `VLU` is at -/

/-- What is known of a load when `n` of its elements were asked for. -/
structure Current (s : VLU) (n : ℕ) (r : LoadRecord) : Prop where
  op : s.op = { r.op with utidx := s.op.utidx }
  first : r.first ≤ s.op.utidx.toNat
  last : s.op.utidx.toNat ≤ r.last
  fifo : ∀ b, r.returned b = r.written b ++ (s.bwqs b).held
  nodup : r.elements.Nodup
  range : ∀ k ∈ r.elements, r.first ≤ k ∧ k < r.last ∧ k < r.first + n
  tracks : Tracks s.bwStat s.op.utidx.toNat r.Written
  counted : ∀ k, r.first ≤ k → k < s.op.utidx.toNat → r.Written k

namespace Current

theorem mono (h : Current s n r) (hnm : n ≤ m) : Current s m r :=
  { h with
    range := fun k hk => by
      obtain ⟨hfirst, hlast, hasked⟩ := h.range k hk
      exact ⟨hfirst, hlast, hasked.trans_le (Nat.add_le_add_left hnm _)⟩ }

theorem fresh {op : Issue.DeckOp} (hop : s.op = op) (hheld : ∀ b, (s.bwqs b).held = [])
    (hstat : s.bwStat = 0) (hle : op.utidx.toNat ≤ op.vlen.toNat) :
    Current s n ⟨op, [], fun _ => []⟩ := by
  subst hop
  refine ⟨rfl, le_rfl, hle, fun b => (hheld b).symm, List.nodup_nil, fun k hk => ?_, ?_,
    fun k hfirst hlt => ?_⟩
  · cases hk
  · rw [hstat]
    refine tracks_zero ?_
    rintro k - ⟨b, w, hw, -⟩
    cases hw
  · exact absurd hlt (Nat.not_lt.mpr hfirst)

section

variable (h : Current s n r)
include h

theorem mem_elements (hk : r.Written k) : k ∈ r.elements := by
  obtain ⟨b, w, hw, rfl⟩ := hk
  refine LoadRecord.mem_elements_of_returned ?_
  rw [h.fifo b]
  exact List.mem_append_left _ hw

/-- An element that waits in a queue is not written, not even as another one. -/
theorem not_written (hw : w ∈ (s.bwqs b).held) :
    ¬ r.Written (8 * w.tag.toNat + b.val) := by
  have hnodup := LoadRecord.nodup_returned h.nodup b
  rw [h.fifo b, List.map_append, List.nodup_append] at hnodup
  rintro ⟨b', w', hw', heq⟩
  have hb : b' = b := Fin.ext (by omega)
  subst hb
  exact hnodup.2.2 _ (List.mem_map_of_mem hw') _ (List.mem_map_of_mem hw) heq

theorem held_mem (hw : w ∈ (s.bwqs b).held) :
    8 * w.tag.toNat + b.val ∈ r.elements := by
  refine LoadRecord.mem_elements_of_returned ?_
  rw [h.fifo b]
  exact List.mem_append_right _ hw

theorem le_of_held (hw : w ∈ (s.bwqs b).held) :
    s.op.utidx.toNat ≤ 8 * w.tag.toNat + b.val := by
  by_contra hlt
  exact h.not_written hw (h.counted _ (h.range _ (h.held_mem hw)).1 (Nat.lt_of_not_le hlt))

/-- **When everything is counted, the queues are empty, and so is the status.** -/
theorem complete (hend : s.op.utidx.toNat = r.last) :
    r.Complete ∧ (∀ b, (s.bwqs b).held = []) ∧ s.bwStat = 0 := by
  have hall : ∀ k, k ∈ r.elements ↔ r.first ≤ k ∧ k < r.last := fun k =>
    ⟨fun hk => ⟨(h.range k hk).1, (h.range k hk).2.1⟩,
      fun hk => h.mem_elements (h.counted k hk.1 (hend ▸ hk.2))⟩
  have hheld : ∀ b, (s.bwqs b).held = [] := by
    intro b
    refine List.eq_nil_iff_forall_not_mem.mpr fun w hw => ?_
    exact absurd (h.range _ (h.held_mem hw)).2.1 (Nat.not_lt.mpr (hend ▸ h.le_of_held hw))
  refine ⟨⟨h.nodup, hall, fun b => ?_⟩, hheld, h.tracks.eq_zero fun k hk hw => ?_⟩
  · rw [h.fifo b, hheld b, List.append_nil]
  · exact absurd (h.range k (h.mem_elements hw)).2.1 (Nat.not_lt.mpr (hend ▸ hk))

/-- **One cycle of a load.** -/
theorem step (hbusy : s.busy = true)
    (hstrip : i.la.reserve = true → s.available i.la.cnt = true ∧
      s.op.utidx.toNat + i.la.cnt.toNat ≤ s.op.vlen.toNat)
    (hdata : ∀ e ∈ i.ldata, r.first ≤ e.info.utidx.toNat ∧ e.info.utidx.toNat < r.last ∧
      e.info.utidx.toNat < r.first + n ∧ e.info.utidx.toNat ∉ r.elements)
    (hwindow : r.first + n ≤ s.op.utidx.toNat + 128) :
    Current (s.step i) n (r.note i.cfg (s.loaded i) (s.written i)) := by
  have hentry : VLU.bwEntry s.op = VLU.bwEntry r.op := by
    rw [h.op]
    rfl
  have hvlen : s.op.vlen.toNat = r.last := by
    rw [h.op]
    rfl
  have hloaded : ∀ e ∈ s.loaded i, e ∈ i.ldata := fun e he => (Option.mem_filter_iff.mp he).1
  have hutidx := VLU.toNat_step_utidx (i := i) hbusy fun hres => (hstrip hres).2
  have hle8 : i.la.reserve = true → i.la.cnt.toNat ≤ 8 := fun hres =>
    (VLU.available_iff.mp (hstrip hres).1).1
  have hrange : ∀ k ∈ (r.note i.cfg (s.loaded i) (s.written i)).elements,
      r.first ≤ k ∧ k < r.last ∧ k < r.first + n := by
    intro k hk
    rcases LoadRecord.mem_elements_note.mp hk with hk | ⟨e, he, rfl⟩
    · exact h.range k hk
    · obtain ⟨hfirst, hlast, hasked, -⟩ := hdata e (hloaded e he)
      exact ⟨hfirst, hlast, hasked⟩
  have hfifo : ∀ b, (r.note i.cfg (s.loaded i) (s.written i)).returned b =
      (r.note i.cfg (s.loaded i) (s.written i)).written b ++ ((s.step i).bwqs b).held := by
    intro b
    have hstep := VLU.fifo_step (s := s) (i := i) (b := b)
    rw [hentry] at hstep
    rw [LoadRecord.returned_note, h.fifo b, List.append_assoc, hstep, LoadRecord.note,
      List.append_assoc]
  have hmem : ∀ k, (r.note i.cfg (s.loaded i) (s.written i)).Written k →
      k ∈ (r.note i.cfg (s.loaded i) (s.written i)).elements := by
    rintro k ⟨b, w, hw, rfl⟩
    refine LoadRecord.mem_elements_of_returned ?_
    rw [hfifo b]
    exact List.mem_append_left _ hw
  have htracks : Tracks (s.bwStatNext i) s.op.utidx.toNat
      (r.note i.cfg (s.loaded i) (s.written i)).Written :=
    (VLU.tracks_next h.tracks fun b w hw => h.le_of_held (VLU.mem_held_of_written hw)).congr
      fun k => LoadRecord.written_note.symm
  refine ⟨?_, ?_, ?_, hfifo, ?_, hrange, ?_, ?_⟩
  · rw [VLU.step_op hbusy, h.op]
    rfl
  · exact h.first.trans (by rw [hutidx]; exact Nat.le_add_right ..)
  · rw [hutidx]
    show _ ≤ r.last
    cases hres : i.la.reserve with
    | false => exact h.last
    | true => exact hvlen ▸ (hstrip hres).2
  · rw [LoadRecord.elements_note, List.nodup_append]
    refine ⟨h.nodup, ?_, ?_⟩
    · cases s.loaded i <;> simp
    · intro k hk k' hk' heq
      rw [Option.mem_toList, Option.map_eq_some_iff] at hk'
      obtain ⟨e, he, rfl⟩ := hk'
      exact (hdata e (hloaded e he)).2.2.2 (heq ▸ hk)
  · rw [hutidx, VLU.step_bwStat hbusy hle8]
    refine htracks.shift (fun k hk hw => ?_) _
    exact absurd (hrange k (hmem k hw)).2.2 (by omega)
  · intro k hfirst hlt
    refine LoadRecord.written_note.mpr (.inl ?_)
    rw [hutidx] at hlt
    rcases Nat.lt_or_ge k s.op.utidx.toNat with hbefore | hge
    · exact h.counted k hfirst hbefore
    · cases hres : i.la.reserve with
      | false =>
        rw [hres] at hlt
        exact absurd hlt (Nat.not_lt.mpr hge)
      | true =>
        rw [hres, if_pos rfl] at hlt
        obtain ⟨hle, hbits⟩ := VLU.available_iff.mp (hstrip hres).1
        have hbit := hbits (k - s.op.utidx.toNat) (by omega)
        rwa [h.tracks _ (by omega), Nat.add_sub_cancel' hge] at hbit

end

end Current

/-! ### The invariant -/

theorem counted_of_idle {g : LoadLog} (h : s.busy = false) : counted s g = 0 := by
  rw [counted, h]
  cases g.records <;> rfl

variable {past : List LoadRecord} {l : List LoadRecord}

theorem counted_of_busy {g : LoadLog} (h : s.busy = true)
    (hrec : g.records = r :: past) : counted s g = s.op.utidx.toNat - r.first := by
  rw [counted, hrec, h]
  rfl

theorem noteRecords_none {s : LoadPath} {i : LoadPathIn} (h : s.vlu.busy = false)
    (hop : i.op = none) : s.noteRecords i l = l := by
  simp only [noteRecords, h, hop, Bool.false_eq_true, if_false]

theorem noteRecords_some {s : LoadPath} {i : LoadPathIn} {op : Issue.DeckOp}
    (h : s.vlu.busy = false) (hop : i.op = some op) :
    s.noteRecords i l = ⟨op, [], fun _ => []⟩ :: l := by
  simp only [noteRecords, h, hop, Bool.false_eq_true, if_false]

theorem noteRecords_busy {s : LoadPath} {i : LoadPathIn}
    (h : s.vlu.busy = true) : s.noteRecords i (r :: l) =
      r.note i.cfg (s.vlu.loaded i.toVLUIn) (s.vlu.written i.toVLUIn) :: l := by
  simp only [noteRecords, h, if_true]

theorem Promise.strip_of_busy {x : LoadPath × LoadLog} {i : LoadPathIn}
    (hp : Promise x i) (hbusy : x.1.vlu.busy = true) (hrec : x.2.records = r :: past)
    (hres : i.la.reserve = true) : x.1.vlu.available i.la.cnt = true ∧
      x.1.vlu.op.utidx.toNat + i.la.cnt.toNat ≤ x.1.vlu.op.vlen.toNat ∧
      x.1.vlu.op.utidx.toNat - r.first + i.la.cnt.toNat ≤ x.2.asked := by
  obtain ⟨havail, -, hasked, hend⟩ := hp.strip hres
  rw [counted_of_busy hbusy hrec] at hasked
  exact ⟨havail, hend hbusy, hasked⟩

/-- The counter and the elements that are asked for and not counted make up its capacity. -/
structure Inv (x : LoadPath × LoadLog) : Prop where
  credits : x.1.lcnt.count.toNat + x.2.asked = 128 + counted x.1.vlu x.2
  counted_le : counted x.1.vlu x.2 ≤ x.2.asked
  idle : x.1.vlu.busy = false → (∀ b, (x.1.vlu.bwqs b).held = []) ∧
    (x.2.asked = 0 ∨ x.1.vlu.bwStat = 0) ∧ ∀ r ∈ x.2.records, r.Complete
  busy : x.1.vlu.busy = true → ∃ r past, x.2.records = r :: past ∧
    Current x.1.vlu x.2.asked r ∧ x.1.vlu.op.utidx.toNat < r.last ∧ ∀ r ∈ past, r.Complete

namespace Inv

variable {x : LoadPath × LoadLog} {i : LoadPathIn}

theorem start {s : LoadPath} (h : s.IsReset) : Inv (s, ⟨0, []⟩) where
  credits := by
    rw [h.lcnt, counted_of_idle h.vlu.busy]
    rfl
  counted_le := Nat.zero_le _
  idle _ := ⟨fun b => (h.vlu.bwqs b).held, .inl rfl, fun r hr => by cases hr⟩
  busy hbusy := by
    rw [h.vlu.busy] at hbusy
    cases hbusy

theorem count_le (h : Inv x) : x.1.lcnt.count.toNat ≤ 128 := by
  have hcredits := h.credits
  have hcounted := h.counted_le
  omega

theorem not_available (h : Inv x) (hidle : x.1.vlu.busy = false) {cnt : BitVec 8}
    (hpos : 0 < cnt.toNat) (hasked : cnt.toNat ≤ x.2.asked) : x.1.vlu.available cnt = false := by
  by_contra havail
  rw [Bool.not_eq_false] at havail
  have hbit := (VLU.available_iff.mp havail).2 0 hpos
  rcases (h.idle hidle).2.1 with hzero | hzero
  · omega
  · rw [hzero] at hbit
    cases hbit

theorem not_reserve (h : Inv x) (hp : Promise x i) (hidle : x.1.vlu.busy = false) :
    i.la.reserve = false := by
  by_contra hres
  rw [Bool.not_eq_false] at hres
  obtain ⟨havail, hpos, hasked, -⟩ := hp.strip hres
  rw [counted_of_idle hidle, Nat.zero_add] at hasked
  rw [h.not_available hidle hpos hasked] at havail
  cases havail

theorem toNat_next (h : Inv x) (hp : Promise x i) (hle : i.la.reserve = true → i.la.cnt.toNat ≤ 8) :
    (x.1.lcnt.next i.lreq i.la).count.toNat + (if i.lreq.reserve then i.lreq.cnt.toNat else 0) =
      x.1.lcnt.count.toNat + if i.la.reserve then i.la.cnt.toNat else 0 := by
  have hcount := h.count_le
  have hroom : i.lreq.reserve = true → i.lreq.cnt.toNat ≤ x.1.lcnt.count.toNat := fun hres => by
    simpa [MRTLoadRetireCounter.available, BitVec.le_def] using hp.lreq hres
  rw [MRTLoadRetireCounter.next]
  cases hl : i.lreq.reserve with
  | false =>
    cases hr : i.la.reserve with
    | false => rfl
    | true =>
      have hle8 := hle hr
      simp only [Bool.false_eq_true, if_false, if_true, BitVec.toNat_add]
      omega
  | true =>
    have hle' := hroom hl
    have hsub : (x.1.lcnt.count - i.lreq.cnt).toNat =
        x.1.lcnt.count.toNat - i.lreq.cnt.toNat :=
      BitVec.toNat_sub_of_le (by rw [BitVec.le_def]; exact hle')
    cases hr : i.la.reserve with
    | false =>
      simp only [Bool.false_eq_true, if_false, if_true, hsub]
      omega
    | true =>
      have hle8 := hle hr
      simp only [if_true, BitVec.toNat_add, hsub]
      omega

theorem held_idle (h : Inv x) (hp : Promise x i) (hidle : x.1.vlu.busy = false) (b : Fin 8) :
    ((x.1.vlu.step i.toVLUIn).bwqs b).held = [] := by
  have hdata : i.ldata = none := by
    refine Option.eq_none_iff_forall_not_mem.mpr fun e he => ?_
    have hbusy := (hp.ldata e he).1
    rw [hidle] at hbusy
    cases hbusy
  have hloaded : x.1.vlu.loaded i.toVLUIn = none := by
    rw [VLU.loaded, hdata]
    rfl
  have hstep := VLU.fifo_step (s := x.1.vlu) (i := i.toVLUIn) (b := b)
  rw [(h.idle hidle).1 b, hloaded] at hstep
  exact (List.append_eq_nil_iff.mp hstep.symm).2

theorem of_idle (hidle : x.1.vlu.busy = false)
    (hcredits : x.1.lcnt.count.toNat + x.2.asked = 128)
    (hheld : ∀ b, (x.1.vlu.bwqs b).held = []) (hstat : x.1.vlu.bwStat = 0)
    (hcomplete : ∀ r ∈ x.2.records, r.Complete) : Inv x where
  credits := by rw [counted_of_idle hidle, hcredits]
  counted_le := (counted_of_idle hidle).trans_le (Nat.zero_le _)
  idle _ := ⟨hheld, .inr hstat, hcomplete⟩
  busy h := by
    rw [hidle] at h
    cases h

theorem of_busy {past : List LoadRecord} (hbusy : x.1.vlu.busy = true)
    (hrec : x.2.records = r :: past)
    (hcredits : x.1.lcnt.count.toNat + x.2.asked = 128 + (x.1.vlu.op.utidx.toNat - r.first))
    (hle : x.1.vlu.op.utidx.toNat - r.first ≤ x.2.asked)
    (hcur : Current x.1.vlu x.2.asked r) (hlt : x.1.vlu.op.utidx.toNat < r.last)
    (hpast : ∀ r ∈ past, r.Complete) : Inv x where
  credits := by rw [counted_of_busy hbusy hrec, hcredits]
  counted_le := (counted_of_busy hbusy hrec).trans_le hle
  idle h := by
    rw [hbusy] at h
    cases h
  busy _ := ⟨r, past, hrec, hcur, hlt, hpast⟩

/-- Without a load no strip is counted, and only the elements of the next one are asked for. -/
theorem credits_idle (h : Inv x) (hp : Promise x i) (hidle : x.1.vlu.busy = false) :
    (next x.1 i).lcnt.count.toNat + (note x.1 i x.2).asked = 128 := by
  have hres := h.not_reserve hp hidle
  have hcount := h.toNat_next hp (by rw [hres]; exact fun h => by cases h)
  have hcredits := h.credits
  have hasked : (note x.1 i x.2).asked =
      x.2.asked + if i.lreq.reserve then i.lreq.cnt.toNat else 0 := by
    rw [note, finishes, hidle]
    rfl
  rw [counted_of_idle hidle] at hcredits
  rw [hres, if_neg Bool.false_ne_true] at hcount
  rw [hasked]
  show (x.1.lcnt.next i.lreq i.la).count.toNat + _ = 128
  omega

/-- **A cycle without a load**, or the one in which a load is taken. -/
theorem step_idle (h : Inv x) (hp : Promise x i) (hidle : x.1.vlu.busy = false) :
    Inv (next x.1 i, note x.1 i x.2) := by
  have hheld := h.held_idle hp hidle
  have hcredits := h.credits_idle hp hidle
  have hstat : (x.1.vlu.step i.toVLUIn).bwStat = 0 := by
    rw [VLU.step, hidle]
    rfl
  have hcomplete := (h.idle hidle).2.2
  cases hop : i.op with
  | none =>
    have hrec : (note x.1 i x.2).records = x.2.records := noteRecords_none hidle hop
    refine of_idle ?_ hcredits hheld hstat (hrec ▸ hcomplete)
    show (x.1.vlu.step i.toVLUIn).busy = false
    rw [VLU.step, hidle, hop]
    rfl
  | some op =>
    have hrec : (note x.1 i x.2).records = ⟨op, [], fun _ => []⟩ :: x.2.records :=
      noteRecords_some hidle hop
    have hop' : (x.1.vlu.step i.toVLUIn).op = op := by
      rw [VLU.step, hidle, hop]
      rfl
    have hlt : op.utidx.toNat < op.vlen.toNat := BitVec.lt_def.mp (hp.op op hop)
    have hzero : (x.1.vlu.step i.toVLUIn).op.utidx.toNat - op.utidx.toNat = 0 := by
      rw [hop', Nat.sub_self]
    refine of_busy ?_ hrec (hcredits.trans (congrArg (128 + ·) hzero.symm))
      (hzero.trans_le (Nat.zero_le _)) ?_ (hop' ▸ hlt) hcomplete
    · show (x.1.vlu.step i.toVLUIn).busy = true
      rw [VLU.step, hidle, hop]
      rfl
    · exact .fresh hop' hheld hstat hlt.le

/-- **A cycle of a load**, or the last one. -/
theorem step_busy (h : Inv x) (hp : Promise x i) (hbusy : x.1.vlu.busy = true) :
    Inv (next x.1 i, note x.1 i x.2) := by
  obtain ⟨r, past, hrec, hcur, hlt, hpast⟩ := h.busy hbusy
  have hstrip := fun hres => hp.strip_of_busy hbusy hrec hres
  have hcounted := counted_of_busy hbusy hrec
  have hcredits := hcounted ▸ h.credits
  have hasked := hcounted ▸ h.counted_le
  have hfirst := hcur.first
  have hcount := h.toNat_next hp fun hres => (VLU.available_iff.mp (hstrip hres).1).1
  have hutidx := VLU.toNat_step_utidx (i := i.toVLUIn) hbusy fun hres => (hstrip hres).2.1
  have hnext := hcur.step hbusy (fun hres => ⟨(hstrip hres).1, (hstrip hres).2.1⟩)
    (fun e he => (hp.ldata e he).2 r (by rw [hrec]; rfl)) (by omega)
  have hrec' : (note x.1 i x.2).records =
      r.note i.cfg (x.1.vlu.loaded i.toVLUIn) (x.1.vlu.written i.toVLUIn) :: past := by
    rw [note, hrec]
    exact noteRecords_busy hbusy
  have hvlen : x.1.vlu.op.vlen.toNat = r.last := by
    rw [hcur.op]
    rfl
  cases hfin : finishes x.1.vlu i.toVLUIn with
  | true =>
    rw [finishes, Bool.and_eq_true, Bool.and_eq_true, decide_eq_true_eq] at hfin
    obtain ⟨⟨-, hres⟩, hend⟩ := hfin
    have hlast : (x.1.vlu.step i.toVLUIn).op.utidx.toNat = r.last := by
      rw [VLU.step_op hbusy, hres, ← hvlen, ← hend]
      rfl
    obtain ⟨hdone, hheld, hstat⟩ := hnext.complete hlast
    have hnote : (note x.1 i x.2).asked =
        x.2.asked + (if i.lreq.reserve then i.lreq.cnt.toNat else 0) -
          (x.1.vlu.op.utidx.toNat - r.first + i.la.cnt.toNat) := by
      rw [note, finishes, hbusy, hres, hend, hcounted]
      simp
    have hle := (hstrip hres).2.2
    rw [hres, if_pos rfl] at hcount
    refine of_idle ?_ ?_ hheld hstat ?_
    · show (x.1.vlu.step i.toVLUIn).busy = false
      rw [VLU.step, hbusy, hres, hend]
      simp
    · show (x.1.lcnt.next i.lreq i.la).count.toNat + _ = 128
      rw [hnote]
      omega
    · rw [hrec']
      exact List.forall_mem_cons.mpr ⟨hdone, hpast⟩
  | false =>
    have hnote : (note x.1 i x.2).asked =
        x.2.asked + if i.lreq.reserve then i.lreq.cnt.toNat else 0 := by
      rw [note, hfin]
      rfl
    rw [finishes, hbusy, Bool.true_and] at hfin
    have hmore : x.1.vlu.op.utidx.toNat + (if i.la.reserve then i.la.cnt.toNat else 0) - r.first ≤
        x.2.asked := by
      cases hres : i.la.reserve with
      | false => exact hasked
      | true =>
        have hle := (hstrip hres).2.2
        rw [if_pos rfl]
        omega
    have hbefore : (x.1.vlu.step i.toVLUIn).op.utidx.toNat < r.last := by
      -- The window has not reached the end: this is what `finishes` looks at.
      refine lt_of_le_of_ne hnext.last fun heq => ?_
      cases hres : i.la.reserve with
      | false =>
        rw [hutidx, hres] at heq
        exact hlt.ne heq
      | true =>
        rw [hres, Bool.true_and, decide_eq_false_iff_not] at hfin
        rw [VLU.step_op hbusy, hres] at heq
        exact hfin (BitVec.eq_of_toNat_eq (heq.trans hvlen.symm))
    refine of_busy ?_ hrec' ?_ ?_ ?_ hbefore hpast
    · show (x.1.vlu.step i.toVLUIn).busy = true
      rw [VLU.step, hbusy, if_pos rfl, hfin]
      rfl
    · show (x.1.lcnt.next i.lreq i.la).count.toNat + _ =
        128 + ((x.1.vlu.step i.toVLUIn).op.utidx.toNat - r.first)
      rw [hutidx, hnote]
      omega
    · show (x.1.vlu.step i.toVLUIn).op.utidx.toNat - r.first ≤ _
      rw [hutidx, hnote]
      exact hmore.trans (Nat.le_add_right ..)
    · show Current (x.1.vlu.step i.toVLUIn) _ _
      rw [hnote]
      exact hnext.mono (Nat.le_add_right ..)

end Inv

theorem inv_of_reachable (x : LoadPath × LoadLog) (h : (machine.restrict Promise).Reachable x) :
    Inv x := by
  refine Machine.invariant ?_ ?_ x h
  · rintro ⟨s, g⟩ ⟨hs, rfl⟩
    exact .start hs
  · rintro ⟨s, g⟩ i ⟨s', g'⟩ - hinv ⟨hp, rfl, rfl⟩
    cases hbusy : s.vlu.busy with
    | false => exact hinv.step_idle hp hbusy
    | true => exact hinv.step_busy hp hbusy

/-! ### What is seen of it -/

/-- The loads whose last strip is counted. -/
def finished (x : LoadPath × LoadLog) : List LoadRecord :=
  if x.1.vlu.busy then x.2.records.tail else x.2.records

structure Exact (x : LoadPath × LoadLog) : Prop where
  /-- A strip that was asked for is available exactly if all its elements are written. -/
  available : ∀ cnt : BitVec 8, 0 < cnt.toNat → counted x.1.vlu x.2 + cnt.toNat ≤ x.2.asked →
    (x.1.vlu.available cnt = true ↔ x.1.vlu.busy = true ∧ cnt.toNat ≤ 8 ∧
      ∃ r ∈ x.2.records.head?, ∀ k < cnt.toNat, r.Written (x.1.vlu.op.utidx.toNat + k))
  /-- The status is about the elements of the load from `op.utidx` on, and about no other load. -/
  status : x.1.vlu.busy = true → ∃ r ∈ x.2.records.head?, ∀ j < 128,
    (x.1.vlu.bwStat.getLsbD j = true ↔ r.Written (x.1.vlu.op.utidx.toNat + j))
  /-- Every returned element is written at most once, in the order in which they were returned. -/
  once : ∀ r ∈ x.2.records, r.elements.Nodup ∧ ∀ b, r.written b <+: r.returned b
  /-- What is written is an element, and goes to the register of its microthread. -/
  place : ∀ r ∈ x.2.records, ∀ b, ∀ w ∈ r.written b, ∃ e ∈ r.loaded,
    e.2.info.utidx.toNat % 8 = b.val ∧ w.data = VLU.bwData r.op e.2.data ∧
      w.addr = (· + (VLU.vdStride r.op e.1).setWidth 8)^[e.2.info.utidx.toNat / 8] r.op.reg.vd.id
  /-- A load whose last strip is counted was returned and written as a whole. -/
  finished : ∀ r ∈ finished x, r.Complete

variable {x : LoadPath × LoadLog}

/-- Of every load what was written is the beginning of what was returned. -/
theorem Inv.once (h : Inv x) : ∀ r ∈ x.2.records, r.elements.Nodup ∧
    ∀ b, r.written b <+: r.returned b := by
  have hcomplete : ∀ r : LoadRecord, r.Complete → r.elements.Nodup ∧
      ∀ b, r.written b <+: r.returned b := fun r hr =>
    ⟨hr.nodup, fun b => hr.written b ▸ List.prefix_rfl⟩
  intro r hr
  cases hbusy : x.1.vlu.busy with
  | false => exact hcomplete r ((h.idle hbusy).2.2 r hr)
  | true =>
    obtain ⟨r', past, hrec, hcur, -, hpast⟩ := h.busy hbusy
    rw [hrec, List.mem_cons] at hr
    rcases hr with rfl | hr
    · exact ⟨hcur.nodup, fun b => hcur.fifo b ▸ List.prefix_append ..⟩
    · exact hcomplete r (hpast r hr)

theorem Inv.finished (h : Inv x) : ∀ r ∈ finished x, r.Complete := by
  intro r hr
  rw [LoadPath.finished] at hr
  cases hbusy : x.1.vlu.busy with
  | false =>
    rw [hbusy] at hr
    exact (h.idle hbusy).2.2 r hr
  | true =>
    obtain ⟨r', past, hrec, -, -, hpast⟩ := h.busy hbusy
    rw [hbusy, hrec] at hr
    exact hpast r hr

/-- **The status is exact.** -/
theorem exact_of_inv (h : Inv x) : Exact x := by
  refine ⟨fun cnt hpos hasked => ?_, fun hbusy => ?_, h.once, fun r hr b w hw => ?_, h.finished⟩
  · cases hbusy : x.1.vlu.busy with
    | false =>
      rw [counted_of_idle hbusy, Nat.zero_add] at hasked
      rw [h.not_available hbusy hpos hasked]
      exact iff_of_false Bool.false_ne_true fun hall => Bool.false_ne_true hall.1
    | true =>
      obtain ⟨r, past, hrec, hcur, -⟩ := h.busy hbusy
      rw [VLU.available_iff, hrec]
      constructor
      · rintro ⟨hle, hbits⟩
        exact ⟨rfl, hle, r, rfl, fun k hk => (hcur.tracks k (by omega)).mp (hbits k hk)⟩
      · rintro ⟨-, hle, r', ⟨⟩, hall⟩
        exact ⟨hle, fun k hk => (hcur.tracks k (by omega)).mpr (hall k hk)⟩
  · obtain ⟨r, past, hrec, hcur, -⟩ := h.busy hbusy
    exact ⟨r, by rw [hrec]; rfl, hcur.tracks⟩
  · obtain ⟨e, he, rfl⟩ := List.mem_map.mp (((h.once r hr).2 b).subset hw)
    obtain ⟨he, hb⟩ := List.mem_filter.mp he
    rw [decide_eq_true_eq] at hb
    exact ⟨e, he, hb ▸ (VLU.bank_val e.2).symm, rfl, VLU.bwEntry_row r.op e.1 e.2⟩

end LoadPath

end Hwacha

end RiscvSoc
