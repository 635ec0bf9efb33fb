import RiscvSoc.Hwacha.Sequencer
import RiscvSoc.Hwacha.VLUStatus

/-!
# Every element of a load is counted

If the banks take something again and again, the memory returns what it is asked for, and the
sequencer comes back to a load as long as it is not done, then every element of every load is
counted. Suppose no strip is counted any more. Then the counter has room for the next strip until it
is asked for, its elements come, and the queues give them to the banks. After that the strip is
available, and the sequencer counts it.
-/

namespace RiscvSoc

namespace Hwacha

open SlidingWindow

namespace LoadPath

variable {x y : ℕ → LoadPath × LoadLog} {i j : ℕ → LoadPathIn} {rs : ℕ → LoadRecord} {n k : ℕ}
  {b : Fin 8}

/-- What the banks, the memory and the sequencer do again and again. -/
structure Fair (x : ℕ → LoadPath × LoadLog) (i : ℕ → LoadPathIn) : Prop where
  banks : ∀ t b, ∃ u ≥ t, (i u).bwqsReady b = true
  /-- The sequencer asks for the elements of a load if there is room for a strip. -/
  asks : ∀ t, (x t).1.vlu.busy = true →
    (∀ r ∈ (x t).2.records.head?, r.first + (x t).2.asked < r.last) →
      ∃ u ≥ t, 8 ≤ (x u).1.lcnt.count.toNat →
        (i u).lreq.reserve = true ∧ 0 < (i u).lreq.cnt.toNat
  /-- The memory returns an element that it is asked for. -/
  answers : ∀ t, (x t).1.vlu.busy = true → ∀ r ∈ (x t).2.records.head?, ∀ k, r.first ≤ k →
    k < r.last → k < r.first + (x t).2.asked → k ∉ r.elements →
      ∃ u ≥ t, ∃ e ∈ (i u).ldata, e.info.utidx.toNat = k
  /-- An element that is not taken is there again. -/
  waits : ∀ t, ∀ e ∈ (i t).ldata, (x t).1.vlu.vldqReady (i t).toVLUIn e = false →
    (i (t + 1)).ldata = some e
  /-- The sequencer comes to the next strip of a load, and counts it if it is available. -/
  counts : ∀ t, (x t).1.vlu.busy = true → ∃ u ≥ t, (x u).1.vlu.busy = true →
    0 < (i u).la.cnt.toNat ∧ (i u).la.cnt.toNat ≤ 8 ∧
      (x u).1.vlu.op.utidx.toNat + (i u).la.cnt.toNat ≤ (x u).1.vlu.op.vlen.toNat ∧
      ((x u).1.vlu.available (i u).la.cnt = true → (i u).la.reserve = true)

/-- The counts of `Fair.counts` are those of the sequencer: in double precision, which is the only
one there is, a strip has no more elements than there are banks, and no more than are left. -/
theorem count_of_strip {cfg : HwachaConfig} {slot : SeqSlot} {op : Issue.DeckOp} {la : LookAhead}
    (hprec : cfg.prec = .double) (hbanks : 0 < cfg.bcnt.toNat ∧ cfg.bcnt.toNat ≤ 8)
    (hrest : op.utidx.toNat + slot.vlen.toNat = op.vlen.toNat) (hmore : 0 < slot.vlen.toNat)
    (hcnt : la.cnt = (slot.nelements cfg).setWidth 8) :
    0 < la.cnt.toNat ∧ la.cnt.toNat ≤ 8 ∧
      op.utidx.toNat + la.cnt.toNat ≤ op.vlen.toNat := by
  have hsize : cfg.size slot.active.turbo = cfg.bcnt.toNat := by
    rw [HwachaConfig.size, HwachaConfig.width, hprec]
    cases slot.active.turbo <;> exact Nat.one_mul _
  have hval : la.cnt.toNat = min slot.vlen.toNat cfg.bcnt.toNat := by
    rw [hcnt, BitVec.toNat_setWidth_of_le (by decide), SeqSlot.toNat_nelements, hsize]
  omega

theorem exists_shift {P : ℕ → Prop} {t n : ℕ} (h : ∃ u ≥ t + n, P u) : ∃ u ≥ n, P (t + u) := by
  obtain ⟨u, hu, hP⟩ := h
  exact ⟨u - t, by omega, by rwa [Nat.add_sub_cancel' (by omega)]⟩

theorem Fair.shift (h : Fair x i) (t : ℕ) :
    Fair (fun n => x (t + n)) fun n => i (t + n) where
  banks n b := (exists_shift (h.banks (t + n) b) :)
  asks n hbusy hmore := (exists_shift (h.asks (t + n) hbusy hmore) :)
  answers n hbusy r hr k hfirst hlast hasked hnot :=
    (exists_shift (h.answers (t + n) hbusy r hr k hfirst hlast hasked hnot) :)
  waits n := h.waits (t + n)
  counts n hbusy := (exists_shift (h.counts (t + n) hbusy) :)

/-! ### A run in which no strip is counted -/

structure Stuck (y : ℕ → LoadPath × LoadLog) (j : ℕ → LoadPathIn) (rs : ℕ → LoadRecord) :
    Prop where
  fair : Fair y j
  inv : ∀ n, Inv (y n)
  promise : ∀ n, Promise (y n) (j n)
  next : ∀ n, (y (n + 1)).1 = next (y n).1 (j n)
  note : ∀ n, (y (n + 1)).2 = note (y n).1 (j n) (y n).2
  quiet : ∀ n, (j n).la.reserve = false
  busy : ∀ n, (y n).1.vlu.busy = true
  records : ∀ n, (y n).2.records.head? = some (rs n)

/-- What is to be written to bank `b`, and what is written. -/
def bankLog (rs : ℕ → LoadRecord) (b : Fin 8) (n : ℕ) : FifoLog BWQInternalEntry :=
  ⟨(rs n).returned b, (rs n).written b⟩

namespace Stuck

variable (h : Stuck y j rs)
include h

theorem vlu_succ (n : ℕ) : (y (n + 1)).1.vlu = (y n).1.vlu.step (j n).toVLUIn := by
  rw [h.next n]
  rfl

theorem current (n : ℕ) : Current (y n).1.vlu (y n).2.asked (rs n) ∧
    (y n).1.vlu.op.utidx.toNat < (rs n).last := by
  obtain ⟨r, past, hrec, hcur, hlt, -⟩ := (h.inv n).busy (h.busy n)
  have hhead := h.records n
  rw [hrec, List.head?_cons, Option.some.injEq] at hhead
  subst hhead
  exact ⟨hcur, hlt⟩

theorem rs_succ (n : ℕ) : rs (n + 1) = (rs n).note (j n).cfg
    ((y n).1.vlu.loaded (j n).toVLUIn) ((y n).1.vlu.written (j n).toVLUIn) := by
  obtain ⟨r, past, hrec, -⟩ := (h.inv n).busy (h.busy n)
  have hhead := h.records n
  have hnext := h.records (n + 1)
  rw [hrec, List.head?_cons, Option.some.injEq] at hhead
  rw [h.note n, LoadPath.note, hrec, noteRecords_busy (h.busy n), List.head?_cons,
    Option.some.injEq, hhead] at hnext
  exact hnext.symm

theorem op_eq (n : ℕ) : (y n).1.vlu.op = (y 0).1.vlu.op := by
  induction n with
  | zero => rfl
  | succ n ih => rw [h.vlu_succ n, VLU.step_op (h.busy n), h.quiet n, ← ih]; rfl

theorem rs_op (n : ℕ) : (rs n).op = (rs 0).op := by
  induction n with
  | zero => rfl
  | succ n ih => rw [h.rs_succ n, ← ih]; rfl

theorem first_eq (n : ℕ) : (rs n).first = (rs 0).first := by
  rw [LoadRecord.first, h.rs_op n]
  rfl

theorem last_eq (n : ℕ) : (rs n).last = (rs 0).last := by
  rw [LoadRecord.last, h.rs_op n]
  rfl

theorem asked_succ (n : ℕ) : (y (n + 1)).2.asked =
    (y n).2.asked + if (j n).lreq.reserve then (j n).lreq.cnt.toNat else 0 := by
  rw [h.note n, LoadPath.note, finishes, h.quiet n, Bool.and_false]
  rfl

/-! ### The queues move -/

theorem held_succ (n : ℕ) (b : Fin 8) : ((y n).1.vlu.bwqs b).held ++
      ((((y n).1.vlu.loaded (j n).toVLUIn).filter fun e => e.bank = b).map
        (VLU.bwEntry (y n).1.vlu.op (j n).cfg)).toList =
    ((y n).1.vlu.written (j n).toVLUIn b).toList ++ ((y (n + 1)).1.vlu.bwqs b).held := by
  rw [h.vlu_succ n]
  exact VLU.fifo_step

theorem log_note (b : Fin 8) (n : ℕ) : ∃ entered left,
    bankLog rs b (n + 1) = (bankLog rs b n).note entered left :=
  ⟨_, ((y n).1.vlu.written (j n).toVLUIn b).toList, by
    rw [bankLog, h.rs_succ n, LoadRecord.returned_note]
    rfl⟩

theorem written_prefix (b : Fin 8) {m : ℕ} (hnm : n ≤ m) : (rs n).written b <+: (rs m).written b :=
  (FifoLog.le_of_note (bankLog rs b) (h.log_note b) hnm).2

theorem left_grows (b : Fin 8) (n : ℕ) (hheld : ((y n).1.vlu.bwqs b).held ≠ []) :
    ∃ m ≥ n, ((rs n).written b).length < ((rs m).written b).length := by
  have hstay : ∀ m, ((y m).1.vlu.bwqs b).held ≠ [] → ¬ (j m).bwqsReady b = true →
      ((y (m + 1)).1.vlu.bwqs b).held ≠ [] := by
    intro m hne hready hnil
    have hstep := h.held_succ m b
    rw [VLU.written, if_neg hready, hnil] at hstep
    exact hne (List.append_eq_nil_iff.mp hstep).1
  obtain ⟨m, hm, hne, hready⟩ := Machine.exists_of_stays hheld hstay (h.fair.banks n b)
  have hleft := VLU.written_ne_nil hne hready
  refine ⟨m + 1, Nat.le_succ_of_le hm, ?_⟩
  have hpos := List.length_pos_iff.mpr hleft
  have hmono := (h.written_prefix b hm).length_le
  rw [h.rs_succ m, LoadRecord.note, List.length_append]
  exact lt_of_le_of_lt hmono (Nat.lt_add_of_pos_right hpos)

/-- **What was returned is written.** -/
theorem returned_written (b : Fin 8) (n : ℕ) :
    ∃ m ≥ n, (rs n).returned b <+: (rs m).written b :=
  FifoLog.delivers (bankLog rs b) (fun n => ((y n).1.vlu.bwqs b).held) (h.log_note b)
    (fun n => (h.current n).1.fifo b) (h.left_grows b) n

theorem written_mono {m : ℕ} (hnm : n ≤ m) (hk : (rs n).Written k) : (rs m).Written k := by
  obtain ⟨b, w, hw, heq⟩ := hk
  exact ⟨b, w, (h.written_prefix b hnm).subset hw, heq⟩

theorem written_of_mem (hk : k ∈ (rs n).elements) : ∃ m ≥ n, (rs m).Written k := by
  obtain ⟨e, he, rfl⟩ := List.mem_map.mp hk
  obtain ⟨m, hm, hprefix⟩ := h.returned_written e.2.bank n
  have hmem : VLU.bwEntry (rs n).op e.1 e.2 ∈ (rs n).returned e.2.bank :=
    List.mem_map.mpr ⟨e, List.mem_filter.mpr ⟨he, by simp⟩, rfl⟩
  exact ⟨m, hm, e.2.bank, _, hprefix.subset hmem, VLU.utidx_eq e.2⟩

/-! ### The elements come -/

theorem asked_mono {m : ℕ} (hnm : n ≤ m) : (y n).2.asked ≤ (y m).2.asked := by
  induction m, hnm using Nat.le_induction with
  | base => exact le_rfl
  | succ m _ ih =>
    rw [h.asked_succ m]
    exact ih.trans (Nat.le_add_right ..)

/-- The counter has room until the next eight elements are asked for. -/
theorem asked_reaches (n : ℕ) : ∃ m ≥ n,
    (y 0).1.vlu.op.utidx.toNat + 8 ≤ (rs 0).first + (y m).2.asked ∨
      (rs 0).last ≤ (rs 0).first + (y m).2.asked := by
  -- The induction is on how many of them are missing.
  obtain ⟨d, hd⟩ : ∃ d, (y 0).1.vlu.op.utidx.toNat + 8 ≤ (rs 0).first + (y n).2.asked + d :=
    ⟨_, Nat.le_add_left ..⟩
  induction d generalizing n with
  | zero => exact ⟨n, le_rfl, .inl hd⟩
  | succ d ih =>
    by_cases hend : (rs 0).last ≤ (rs 0).first + (y n).2.asked
    · exact ⟨n, le_rfl, .inr hend⟩
    · obtain ⟨m, hm, hasks⟩ := h.fair.asks n (h.busy n) fun r hr => by
        rw [h.records n, Option.mem_some_iff] at hr
        subst hr
        rw [h.first_eq n, h.last_eq n]
        exact Nat.lt_of_not_le hend
      have hle := h.asked_mono hm
      by_cases hroom : 8 ≤ (y m).1.lcnt.count.toNat
      · obtain ⟨hres, hpos⟩ := hasks hroom
        have hsucc := h.asked_succ m
        rw [hres, if_pos rfl] at hsucc
        obtain ⟨m', hm', hdone⟩ := ih (m + 1) (by omega)
        exact ⟨m', by omega, hdone⟩
      · -- Without room for a strip more than 120 elements are asked for and not counted.
        obtain ⟨r, past, hrec, hcur, -⟩ := (h.inv m).busy (h.busy m)
        have hcredits := (h.inv m).credits
        have hfirst := (h.current m).1.first
        have hhead := h.records m
        rw [hrec, List.head?_cons, Option.some.injEq] at hhead
        subst hhead
        rw [counted_of_busy (h.busy m) hrec, h.op_eq m, h.first_eq m] at hcredits
        rw [h.op_eq m, h.first_eq m] at hfirst
        exact ⟨m, hm, .inl (by omega)⟩

theorem has_room (b : Fin 8) (n : ℕ) : ∃ m ≥ n, ((y m).1.vlu.bwqs b).held.length < 2 := by
  obtain ⟨m, hm, hready⟩ := h.fair.banks n b
  by_cases hroom : ((y m).1.vlu.bwqs b).held.length < 2
  · exact ⟨m, hm, hroom⟩
  · refine ⟨m + 1, Nat.le_succ_of_le hm, ?_⟩
    have hle : ((y m).1.vlu.bwqs b).held.length ≤ 2 := Queue.length_held_le
    have hleft := VLU.written_ne_nil (i := (j m).toVLUIn) (s := (y m).1.vlu) (b := b)
      (List.ne_nil_of_length_pos (by omega)) hready
    have hstep := h.held_succ m b
    rw [← VLU.entered_eq, Queue.entered, Queue.enqReady_eq, decide_eq_false hroom] at hstep
    have hlen := congrArg List.length hstep
    rw [if_neg (by simp), List.append_nil, List.length_append] at hlen
    have hpos := List.length_pos_iff.mpr hleft
    omega

/-- **An element that is returned is taken.** -/
theorem taken {e : VLDQEntry} (he : e ∈ (j n).ldata) :
    ∃ m ≥ n, e.info.utidx.toNat ∈ (rs m).elements := by
  have hready : ∃ m ≥ n, (y m).1.vlu.vldqReady (j m).toVLUIn e = true := by
    obtain ⟨m, hm, hroom⟩ := h.has_room e.bank n
    exact ⟨m, hm, by rw [VLU.vldqReady, Queue.enqReady_eq, decide_eq_true hroom]; rfl⟩
  obtain ⟨m, hm, hmem, htake⟩ := Machine.exists_of_stays (P := fun m => e ∈ (j m).ldata) he
    (fun m hmem hwait => h.fair.waits m e hmem (by simpa using hwait)) hready
  refine ⟨m + 1, Nat.le_succ_of_le hm, ?_⟩
  rw [h.rs_succ m, LoadRecord.mem_elements_note]
  exact .inr ⟨e, Option.mem_filter_iff.mpr ⟨hmem, htake⟩, rfl⟩

/-- **The next eight elements are written.** -/
theorem next_written (hge : (y 0).1.vlu.op.utidx.toNat ≤ k)
    (hlt : k < (y 0).1.vlu.op.utidx.toNat + 8) (hlast : k < (rs 0).last) :
    ∃ m, (rs m).Written k := by
  obtain ⟨m, -, hasked⟩ := h.asked_reaches 0
  by_cases hmem : k ∈ (rs m).elements
  · obtain ⟨m', -, hwritten⟩ := h.written_of_mem hmem
    exact ⟨m', hwritten⟩
  · have hfirst := (h.current 0).1.first
    obtain ⟨u, -, e, he, rfl⟩ := h.fair.answers m (h.busy m) (rs m) (h.records m) k
      (by rw [h.first_eq m]; omega) (by rw [h.last_eq m]; exact hlast)
      (by rw [h.first_eq m]; omega) hmem
    obtain ⟨v, -, hmem'⟩ := h.taken he
    obtain ⟨m', -, hwritten⟩ := h.written_of_mem hmem'
    exact ⟨m', hwritten⟩

theorem strip_written (c : ℕ) (hc : c ≤ 8) : ∃ m, ∀ k < c,
    (y 0).1.vlu.op.utidx.toNat + k < (rs 0).last →
      (rs m).Written ((y 0).1.vlu.op.utidx.toNat + k) := by
  induction c with
  | zero => exact ⟨0, fun k hk => absurd hk (Nat.not_lt_zero k)⟩
  | succ c ih =>
    obtain ⟨m, hall⟩ := ih (Nat.le_of_succ_le hc)
    by_cases hlast : (y 0).1.vlu.op.utidx.toNat + c < (rs 0).last
    · obtain ⟨m', hnew⟩ := h.next_written (Nat.le_add_right ..) (by omega) hlast
      refine ⟨max m m', fun k hk hkl => ?_⟩
      rcases Nat.lt_succ_iff_lt_or_eq.mp hk with hk | rfl
      · exact h.written_mono (le_max_left m m') (hall k hk hkl)
      · exact h.written_mono (le_max_right m m') hnew
    · refine ⟨m, fun k hk hkl => hall k ?_ hkl⟩
      exact lt_of_le_of_ne (Nat.le_of_lt_succ hk) fun heq => hlast (heq ▸ hkl)

/-- **There is no such run**: the sequencer finds the next strip available. -/
theorem impossible : False := by
  obtain ⟨m, hall⟩ := h.strip_written 8 le_rfl
  obtain ⟨u, hu, hcounts⟩ := h.fair.counts m (h.busy m)
  obtain ⟨-, hle, hlast, hcount⟩ := hcounts (h.busy u)
  have hcur := (h.current u).1
  have hvlen : (y u).1.vlu.op.vlen.toNat = (rs 0).last := by
    rw [hcur.op, ← h.last_eq u]
    rfl
  rw [hvlen, h.op_eq u] at hlast
  have havail : (y u).1.vlu.available (j u).la.cnt = true := by
    refine VLU.available_iff.mpr ⟨hle, fun k hk => ?_⟩
    rw [hcur.tracks k (by omega), h.op_eq u]
    exact h.written_mono hu (hall k (by omega) (by omega))
  have hres := hcount havail
  rw [h.quiet u] at hres
  cases hres

end Stuck

/-! ### Strip after strip -/

section Runs

variable (hrun : (machine.restrict Promise).Run x i) {t : ℕ}
include hrun

theorem run_inv (t : ℕ) : Inv (x t) := inv_of_reachable _ (hrun.reachable t)

theorem stays (hbusy : (x t).1.vlu.busy = true) (n : ℕ)
    (hquiet : ∀ u ≥ t, u < t + n → (i u).la.reserve = false) :
    (x (t + n)).1.vlu.busy = true ∧ (x (t + n)).1.vlu.op = (x t).1.vlu.op ∧
      (x (t + n)).2.records.length = (x t).2.records.length := by
  induction n with
  | zero => exact ⟨hbusy, rfl, rfl⟩
  | succ n ih =>
    obtain ⟨hb, hop, hlen⟩ := ih fun u hu hlt => hquiet u hu (by omega)
    have hres := hquiet (t + n) (Nat.le_add_right ..) (by omega)
    obtain ⟨-, hnext, hnote⟩ := hrun.step (t + n)
    obtain ⟨r, past, hrec, -⟩ := (run_inv hrun (t + n)).busy hb
    rw [← Nat.add_assoc, show (x (t + n + 1)).1 = _ from hnext, hnote]
    refine ⟨?_, ?_, ?_⟩
    · show (VLU.step _ _).busy = true
      rw [VLU.step, hb, hres]
      rfl
    · show (VLU.step _ _).op = _
      rw [VLU.step_op hb, hres, ← hop]
      rfl
    · rw [note, hrec, noteRecords_busy hb, ← hlen, hrec]
      rfl

/-- **The next strip is counted.** -/
theorem exists_strip (hfair : Fair x i) (hbusy : (x t).1.vlu.busy = true) :
    ∃ u ≥ t, (i u).la.reserve = true ∧ (x u).1.vlu.busy = true ∧
      (x u).1.vlu.op = (x t).1.vlu.op ∧
      (x u).2.records.length = (x t).2.records.length := by
  have hex : ∃ u ≥ t, (i u).la.reserve = true := by
    by_contra hno
    have hquiet : ∀ u ≥ t, (i u).la.reserve = false := fun u hu => by
      simpa using fun hres => hno ⟨u, hu, hres⟩
    have hstays := fun n => stays hrun hbusy n fun u hu _ => hquiet u hu
    choose rs past hrec _ using fun n => (run_inv hrun (t + n)).busy (hstays n).1
    have hstuck : Stuck (fun n => x (t + n)) (fun n => i (t + n)) rs :=
      ⟨hfair.shift t, fun n => run_inv hrun (t + n), fun n => (hrun.step (t + n)).1,
        fun n => (hrun.step (t + n)).2.1, fun n => (hrun.step (t + n)).2.2,
        fun n => hquiet _ (Nat.le_add_right ..), fun n => (hstays n).1,
        fun n => by rw [hrec n]; rfl⟩
    exact hstuck.impossible
  -- The first one is a strip of the same load.
  obtain ⟨n, hres, hfirst⟩ := Machine.exists_first hex
  obtain ⟨hb, hop, hlen⟩ := stays hrun hbusy n fun u hu hlt => by simpa using hfirst u hu hlt
  exact ⟨t + n, Nat.le_add_right .., hres, hb, hop, hlen⟩

/-- **Every element is counted**, by an induction on how many elements are before it. -/
theorem exists_counted (hfair : Fair x i) (d : ℕ) {t : ℕ} (hbusy : (x t).1.vlu.busy = true)
    (hge : (x t).1.vlu.op.utidx.toNat ≤ k) (hlt : k < (x t).1.vlu.op.vlen.toNat)
    (hd : k < (x t).1.vlu.op.utidx.toNat + d) :
    ∃ u ≥ t, (x u).1.vlu.busy = true ∧ (x u).2.records.length = (x t).2.records.length ∧
      (i u).la.reserve = true ∧ (x u).1.vlu.op.utidx.toNat ≤ k ∧
      k < (x u).1.vlu.op.utidx.toNat + (i u).la.cnt.toNat := by
  induction d generalizing t with
  | zero => omega
  | succ d ih =>
    obtain ⟨u, hu, hres, hb, hop, hlen⟩ := exists_strip hrun hfair hbusy
    rw [← hop] at hge hlt hd
    by_cases hk : k < (x u).1.vlu.op.utidx.toNat + (i u).la.cnt.toNat
    · exact ⟨u, hu, hb, hlen, hres, hge, hk⟩
    · obtain ⟨hp, hnext, hnote⟩ := hrun.step u
      obtain ⟨-, hpos, -, hend⟩ := hp.strip hres
      have hvlu : (x (u + 1)).1.vlu = (x u).1.vlu.step (i u).toVLUIn := by rw [hnext]; rfl
      have hutidx := VLU.toNat_step_utidx (i := (i u).toVLUIn) hb fun _ => hend hb
      rw [hres, if_pos rfl, ← hvlu] at hutidx
      have hvlen : (x (u + 1)).1.vlu.op.vlen = (x u).1.vlu.op.vlen := by
        rw [hvlu, VLU.step_op hb]
      have hbusy' : (x (u + 1)).1.vlu.busy = true := by
        have hne : ¬ (x u).1.vlu.utidxNext (i u).toVLUIn = (x u).1.vlu.op.vlen := by
          intro heq
          rw [hvlu, VLU.step_op hb, hres] at hutidx
          have hval := congrArg BitVec.toNat heq
          have hsame : ((x u).1.vlu.utidxNext (i u).toVLUIn).toNat = _ := hutidx
          omega
        rw [hvlu, VLU.step, hb, hres, if_pos rfl, decide_eq_false hne]
        rfl
      have hlen' : (x (u + 1)).2.records.length = (x u).2.records.length := by
        obtain ⟨r, past, hrec, -⟩ := (run_inv hrun u).busy hb
        rw [hnote, note, hrec, noteRecords_busy hb]
        rfl
      have hpos' : 0 < (i u).la.cnt.toNat := BitVec.lt_def.mp hpos
      obtain ⟨v, hv, hvb, hvlen', hrest⟩ := ih hbusy' (by omega) (by rw [hvlen]; exact hlt)
        (by omega)
      exact ⟨v, by omega, hvb, hvlen'.trans (hlen'.trans hlen), hrest⟩

end Runs

/-- **Loads are tracked exactly.** In every cycle the status says which elements are written, every
element that was returned is written once, where its microthread is, and a load that is done is
complete. If the others do what they should again and again, every element is counted. -/
theorem loads_exactly :
    (∀ x, (machine.restrict Promise).Reachable x → Exact x) ∧
      ∀ x i, (machine.restrict Promise).Run x i → Fair x i → ∀ t k,
        (x t).1.vlu.busy = true → (x t).1.vlu.op.utidx.toNat ≤ k →
        k < (x t).1.vlu.op.vlen.toNat →
          ∃ u ≥ t, (x u).1.vlu.busy = true ∧
            (x u).2.records.length = (x t).2.records.length ∧ (i u).la.reserve = true ∧
            (x u).1.vlu.op.utidx.toNat ≤ k ∧
            k < (x u).1.vlu.op.utidx.toNat + (i u).la.cnt.toNat :=
  ⟨fun x hx => exact_of_inv (inv_of_reachable x hx), fun _ _ hrun hfair _ k hbusy hge hlt =>
    exists_counted hrun hfair (k + 1) hbusy hge hlt (by omega)⟩

/-! ### A run -/

namespace TwoElements

def reg : Issue.RegInfo := ⟨false, false, 5⟩

def load : Issue.DeckOp := ⟨2, 0, ⟨⟨VMUFn.VM_VLD, VMUFn.MT_D⟩, false⟩, ⟨reg, reg, none, reg⟩⟩

def emptyQueue : Queue BWQInternalEntry 2 :=
  ⟨⟨⟨0, Deck.two_pos⟩, ⟨0, Deck.two_pos⟩, false⟩, fun _ => ⟨0, 0, 0⟩⟩

def start : LoadPath := ⟨⟨false, load, fun _ => emptyQueue, 0⟩, ⟨128⟩⟩

/-- Two elements are asked for, and come in the wrong order. -/
def input (t : ℕ) : LoadPathIn where
  cfg := ⟨4, 4⟩
  op := if t = 0 then some load else none
  ldata := if t = 1 then some ⟨⟨1, 1, 0⟩, 7⟩ else if t = 2 then some ⟨⟨0, 1, 0⟩, 9⟩ else none
  bwqsReady _ := true
  la := ⟨2, decide (t = 4)⟩
  lreq := ⟨2, decide (t = 0)⟩

def trace : ℕ → LoadPath × LoadLog
  | 0 => (start, ⟨0, []⟩)
  | t + 1 => (next (trace t).1 (input t), note (trace t).1 (input t) (trace t).2)

theorem busy_iff (t : ℕ) : (trace t).1.vlu.busy = true ↔ t = 1 ∨ t = 2 ∨ t = 3 ∨ t = 4 := by
  have hlate : ∀ n, (trace (n + 5)).1.vlu.busy = false := by
    intro n
    induction n with
    | zero => decide
    | succ n ih =>
      show (VLU.step _ _).busy = false
      rw [VLU.step, ih]
      rfl
  obtain _ | _ | _ | _ | _ | n := t
  · decide
  · decide
  · decide
  · decide
  · decide
  · rw [hlate n]
    exact iff_of_false Bool.false_ne_true (by omega)

theorem promise (t : ℕ) : Promise (trace t) (input t) := by
  obtain _ | _ | _ | _ | _ | n := t
  · exact ⟨by rintro op ⟨⟩; decide, by decide, by decide, by rintro e ⟨⟩⟩
  · refine ⟨by rintro op ⟨⟩, by decide, by decide, ?_⟩
    rintro e ⟨⟩
    exact ⟨by decide, by rintro r ⟨⟩; decide⟩
  · refine ⟨by rintro op ⟨⟩, by decide, by decide, ?_⟩
    rintro e ⟨⟩
    exact ⟨by decide, by rintro r ⟨⟩; decide⟩
  · exact ⟨by rintro op ⟨⟩, by decide, by decide, by rintro e ⟨⟩⟩
  · exact ⟨by rintro op ⟨⟩, by decide, by decide, by rintro e ⟨⟩⟩
  · exact ⟨by rintro op ⟨⟩, by rintro ⟨⟩, by rintro ⟨⟩, by rintro e ⟨⟩⟩

theorem run : (machine.restrict Promise).Run trace input :=
  ⟨⟨⟨⟨rfl, fun _ => rfl⟩, rfl⟩, rfl⟩, fun t => ⟨promise t, rfl, rfl⟩⟩

theorem fair : Fair trace input where
  banks t b := ⟨t, le_rfl, rfl⟩
  asks t hbusy hmore := by
    rcases (busy_iff t).mp hbusy with rfl | rfl | rfl | rfl <;>
      exact absurd (hmore _ rfl) (by decide)
  answers t hbusy r hr k _ hlast _ hnot := by
    have hk : k = 0 ∨ k = 1 := by
      have htwo : r.last = 2 := by
        rcases (busy_iff t).mp hbusy with rfl | rfl | rfl | rfl <;>
          (cases hr; rfl)
      omega
    rcases (busy_iff t).mp hbusy with rfl | rfl | rfl | rfl <;> cases hr <;>
      rcases hk with rfl | rfl
    · exact ⟨2, by decide, _, rfl, rfl⟩
    · exact ⟨1, by decide, _, rfl, rfl⟩
    · exact ⟨2, by decide, _, rfl, rfl⟩
    all_goals exact absurd (by decide) hnot
  waits t e he hready := by
    have ht : t = 1 ∨ t = 2 := by
      by_contra hno
      have hnone : (input t).ldata = none := by
        rw [not_or] at hno
        rw [input, if_neg hno.1, if_neg hno.2]
      rw [hnone] at he
      cases he
    rcases ht with rfl | rfl <;> cases he <;> exact absurd hready (by decide)
  counts t hbusy := by
    refine ⟨4, ?_, fun _ => ?_⟩
    · rcases (busy_iff t).mp hbusy with rfl | rfl | rfl | rfl <;> decide
    · obtain ⟨hpos, hle, hend⟩ := @count_of_strip ⟨8, .double⟩ ⟨true, 2, true, .none⟩
        (trace 4).1.vlu.op (input 4).la rfl (by decide) (by decide) (by decide) (by decide)
      exact ⟨hpos, hle, hend, fun _ => rfl⟩

end TwoElements

open TwoElements in
/-- Both elements are counted, and the load is complete. -/
theorem loads_exactly_twoElements : Exact (trace 5) ∧ ∃ u ≥ 1, (trace u).1.vlu.busy = true ∧
    (trace u).2.records.length = (trace 1).2.records.length ∧ (input u).la.reserve = true ∧
    (trace u).1.vlu.op.utidx.toNat ≤ 1 ∧
    1 < (trace u).1.vlu.op.utidx.toNat + (input u).la.cnt.toNat :=
  ⟨loads_exactly.1 _ (run.reachable 5),
    loads_exactly.2 trace input run fair 1 1 (by decide) (by decide) (by decide)⟩

end LoadPath

end Hwacha

end RiscvSoc
