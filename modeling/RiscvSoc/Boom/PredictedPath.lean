import RiscvSoc.Boom.PredictIdle

/-!
# Prediction and resolution agree

A branch that is executed is compared with what was predicted for it, and the prediction is what the
next instruction was fetched by. For a `JALR` the code goes another way: it compares the target with
the program counter of the next row of the reorder buffer, read one cycle before. That works because
the branch target buffer sends nothing along behind the `JALR` in its own row, so the first valid
micro-op of the next row is the next one of the path.

## What is not promised

* An instruction that was fetched with a page fault says nothing about the next one. Such a bundle
  may be fetched a second time.
* The least significant bit of a redirect is cleared by the front end, not by the branch unit.
* A successor outside of the address space, and a `JALR` to an address that is no multiple of four,
  are left out: the branch unit treats both in a way of its own.
-/

namespace RiscvSoc

variable {c : BOOMConf} {n : ℕ} [NeZero n]

namespace PredictStage

variable {s : PredictStage c n} {i : PredictInput c}

/-! ### The next row -/

/-- What the branch unit keeps of a branch is right. -/
def ExeOk (s : PredictStage c n) : Prop :=
  ∀ e, s.exeReg = some e → ∀ u ∈ s.dec.core.brs, u.seq = e.seq →
    e.currPc = (s.uops u.seq).pc ∧
      ((s.uops u.seq).xcptIf = false → (s.uops u.seq).btbPredTaken = true → e.nextVal = true →
        e.nextPc = (wordAddr (s.uops u.seq).next).setWidth 64)

omit [NeZero n] in
/-- A branch on its way is in the buffer, and the buffer is not rolled back. -/
theorem slot_of_brs (ho : s.dec.core.Ordered) {u : RobUop c} (hu : u ∈ s.dec.core.brs)
    (hflush : s.dec.core.rob.flushPipeline = false) :
    (s.dec.core.rob.entry (robSlot u.robIdx)).val = true ∧
      (s.dec.core.rob.entry (robSlot u.robIdx)).uop = u ∧ s.dec.core.rob.state ≠ .rollback := by
  have hpend := Core.mem_pending_of_brs hu
  obtain ⟨x, hx, -, rfl⟩ := ho.waits u hpend
  rw [ho.shaped.addressed x hx]
  refine ⟨hx, rfl, (ho.not_recovering hpend).resolve_right ?_⟩
  rw [hflush]
  simp

omit [NeZero n] in
/-- A row behind a row in use, and not the row at the tail, is in use. -/
theorem rowPlace_succ_of_val (ho : s.dec.core.Ordered)
    (hstate : s.dec.core.rob.state ≠ .rollback) {x : RobSlot c}
    (hx : (s.dec.core.rob.entry x).val = true) (hne : x.1 + 1 ≠ s.dec.core.rob.tail) :
    rowPlace s.dec.core.rob.head (x.1 + 1) = rowPlace s.dec.core.rob.head x.1 + 1 ∧
      ∃ w, (s.dec.core.rob.entry (x.1 + 1, w)).val = true := by
  have hlt := ho.shaped.lt_tail (.inl hstate) x hx
  have hsucc := rowPlace_succ
    ((Nat.succ_le_of_lt hlt).trans_lt (rowPlace_lt s.dec.core.rob.head s.dec.core.rob.tail))
  refine ⟨hsucc, ho.shaped.filled hstate (x.1 + 1) ?_⟩
  refine lt_of_le_of_ne ?_ fun heq => hne (rowPlace_inj heq)
  rw [hsucc]
  exact hlt

omit [NeZero n] in
/-- **The next row starts with the next micro-op**, when nothing is behind a micro-op in its own
row. -/
theorem neighbours_of_next_row (ho : s.dec.core.Ordered)
    (hstate : s.dec.core.rob.state ≠ .rollback) {x : RobSlot c} {w : Bank c}
    (hx : (s.dec.core.rob.entry x).val = true)
    (halone : ∀ y, (s.dec.core.rob.entry y).val = true → x.1 = y.1 → ¬x.2 < y.2)
    (hne : x.1 + 1 ≠ s.dec.core.rob.tail)
    (hw : (s.dec.core.rob.entry (x.1 + 1, w)).val = true)
    (hfirst : ∀ v < w, (s.dec.core.rob.entry (x.1 + 1, v)).val = false) :
    ∃ pre post, s.dec.core.rob.window = pre ++ (s.dec.core.rob.entry x).uop ::
      (s.dec.core.rob.entry (x.1 + 1, w)).uop :: post := by
  obtain ⟨hsucc, -⟩ := rowPlace_succ_of_val ho hstate hx hne
  refine exists_neighbours_of_sorted ho.sorted (Rob.mem_window.mpr ⟨x, hx, rfl⟩)
    (Rob.mem_window.mpr ⟨_, hw, rfl⟩) ?_ fun z hz hlt => ?_
  · refine (ho.seq_lt_iff hx hw).mpr (place_lt_of_rowPlace_lt ?_)
    rw [hsucc]
    exact Nat.lt_succ_self _
  · obtain ⟨y, hy, rfl⟩ := Rob.mem_window.mp hz
    by_contra hbefore
    have hplace := (ho.seq_lt_iff hx hy).mp hlt
    have hplace' := (ho.seq_lt_iff hy hw).mp (not_le.mp hbefore)
    have hrow : rowPlace s.dec.core.rob.head x.1 ≠ rowPlace s.dec.core.rob.head y.1 := fun heq =>
      halone y hy (rowPlace_inj heq) (lt_of_place_lt hplace (rowPlace_inj heq))
    have hle := rowPlace_le_of_place_lt hplace
    have hle' := rowPlace_le_of_place_lt hplace'
    rw [hsucc] at hle'
    have hnext : y.1 = x.1 + 1 := rowPlace_inj (h := s.dec.core.rob.head) (by omega)
    have hval := hfirst y.2 (lt_of_place_lt hplace' hnext)
    rw [← hnext, hy] at hval
    cases hval

/-- The adder of `next_val` wraps as the row index does. -/
theorem tail_ne_of_nextVal {k : ℕ} (hrows : c.numRobRows = 2 ^ k) {r t : RobRow c}
    (h : (r.val + 1) % 2 ^ Bits.log2Up c.numRobRows ≠ t.val) : r + 1 ≠ t := by
  rintro rfl
  have hone : c.numRobRows ≠ 1 := by
    have := c.numRobRows_even
    omega
  have hlog : 2 ^ Bits.log2Up c.numRobRows = c.numRobRows := by
    rw [Bits.log2Up, if_neg hone, hrows, Nat.clog_pow 2 k Nat.one_lt_two]
  rw [hlog] at h
  refine h ?_
  rw [RobPCs.val_succ]
  have hlt := r.isLt
  split
  · rename_i heq
    rw [heq, Nat.mod_self]
  · exact Nat.mod_eq_of_lt (by omega)

section

variable {k : ℕ} (hrows : c.numRobRows = 2 ^ k) (ho : s.dec.core.Ordered) (hpcs : RowsOk s)
  (hpath : s.OnPath) (huops : ∀ u ∈ s.dec.core.rob.window, UopOk u (s.uops u.seq))
include hrows ho hpcs hpath huops

/-- **What `get_pc` reads for a branch is right.** -/
theorem getPc_ok {u : RobUop c} (hu : u ∈ s.dec.core.brs)
    (hflush : s.dec.core.rob.flushPipeline = false) :
    (s.getPc u).currPc = (s.uops u.seq).pc ∧
      ((s.uops u.seq).xcptIf = false → (s.uops u.seq).btbPredTaken = true →
        (s.getPc u).nextVal = true →
        (s.getPc u).nextPc = (wordAddr (s.uops u.seq).next).setWidth 64) := by
  obtain ⟨hx, huop, hstate⟩ := slot_of_brs ho hu hflush
  rw [getPc, RobPCs.read2_eq]
  refine ⟨?_, fun hgo hbtb hval => ?_⟩
  · have hpc := hpcs.pc _ hx
    rwa [huop] at hpc
  · have hne := tail_ne_of_nextVal hrows (of_decide_eq_true hval)
    obtain ⟨-, hfull⟩ := rowPlace_succ_of_val ho hstate hx hne
    cases henc : priorityEncoder fun w =>
        (s.dec.core.rob.entry ((robSlot (c := c) u.robIdx).1 + 1, w)).val with
    | none =>
      obtain ⟨w, hw⟩ := hfull
      rw [priorityEncoder_eq_none.mp henc w] at hw
      cases hw
    | some w =>
      obtain ⟨hw, hfirst⟩ := priorityEncoder_eq_some.mp henc
      have halone : ∀ y, (s.dec.core.rob.entry y).val = true → (robSlot u.robIdx).1 = y.1 →
          ¬(robSlot u.robIdx).2 < y.2 := by
        intro y hy hrow hlt
        have hno := hpcs.alone _ y hx hy hrow hlt
        rw [huop, hbtb] at hno
        cases hno
      obtain ⟨pre, post, hwin⟩ := neighbours_of_next_row ho hstate hx halone hne hw hfirst
      obtain ⟨a, htrail, -⟩ := hpath
      rw [inWindow, if_neg hstate, hwin, huop, List.map_append, List.map_cons, List.map_cons,
        List.append_assoc, List.cons_append, List.cons_append] at htrail
      have hnext := htrail.next_eq ⟨hgo, fun _ => ⟨u, hu, rfl⟩⟩
      have hok := (huops _ (Rob.mem_window.mpr ⟨_, hw, rfl⟩)).insts
      show s.robPcHob.read _ + BitVec.ofNat 64 (4 * ((some w).getD _ : Bank c)) = _
      rw [← hnext, Option.getD_some]
      exact (hpcs.pc _ hw).trans hok.pc

theorem ExeOk.next : (s.next i).ExeOk := by
  intro e he u' hu' hseq
  obtain ⟨q, -, he⟩ := Option.bind_eq_some_iff.mp (show s.nextExeReg i = some e from he)
  obtain ⟨u, hfind, rfl⟩ := Option.map_eq_some_iff.mp he
  have hu := List.mem_of_find?_eq_some hfind
  have hlt := ho.lt_count u (ho.mem_window (Core.mem_pending_of_brs hu))
  obtain ⟨b, -, hb, -⟩ :=
    Core.Ordered.seq_of_brs_next hu' (show u'.seq < s.dec.core.count from hseq ▸ hlt)
  have hsame : (s.next i).uops u'.seq = s.uops u.seq := by
    rw [hseq]
    exact nextUops_of_lt hlt
  rw [hsame]
  exact getPc_ok hrows ho hpcs hpath huops hu (Core.brFilter_eq_some.mp hb).1

end

/-! ### The instruction behind a micro-op -/

omit [NeZero n] in
/-- A branch that turned out mispredicted promises nothing. -/
theorem not_believed_of_mispredicted (ho : s.dec.core.Ordered) {r : RobUop c}
    (hr : s.dec.core.mispredicted r) : ¬s.Believed r := by
  rintro ⟨-, hbr⟩
  obtain ⟨b, hb, heq⟩ := hbr (ho.allocates r (Core.mem_pending_of_brReg hr))
  exact ho.seq_ne_of_brs hr hb heq

omit [NeZero n] in
/-- A micro-op that stays, with nothing behind it in the buffer, was not followed by a redirect. -/
theorem not_stale_of_last (ho : s.dec.core.Ordered) (hsret : s.SretLast) {u : RobUop c}
    (hu : s.Survives u) (hbel : s.Believed u) (hlast : ∀ v ∈ s.dec.core.rob.window, v.seq ≤ u.seq) :
    s.stale = false := by
  have hret : s.dec.sretCommitted = false := by
    rw [← Bool.not_eq_true]
    intro h
    have hmem := hu.mem
    rw [(hsret h).1] at hmem
    cases hmem
  have hmis : s.dec.core.mispredicts = false := by
    rw [← Bool.not_eq_true, Core.mispredicts_eq_true]
    rintro ⟨r, hr⟩
    have hwin := ho.mem_window (Core.mem_pending_of_brReg hr)
    have hle : u.seq ≤ r.seq := by
      by_contra hlt
      have hkill := (ho.killed_iff hu.mem).mpr ⟨r, hr, not_le.mp hlt⟩
      rw [hu.noKill] at hkill
      cases hkill
    obtain rfl := ho.eq_of_seq hwin hu.mem (le_antisymm (hlast r hwin) hle)
    exact not_believed_of_mispredicted ho hr hbel
  rw [stale, hmis, hu.noFlush, hret]
  rfl

/-- **The instruction behind a micro-op is the one its prediction names.** -/
theorem follow_eq (ho : s.dec.core.Ordered) (hsret : s.SretLast) (hpath : s.OnPath) {u : RobUop c}
    (hu : s.Survives u) (hbel : s.Believed u) : s.follow u = (s.uops u.seq).next := by
  obtain ⟨pre, post, hwin⟩ := List.append_of_mem hu.mem
  have hsorted := ho.sorted
  rw [hwin] at hsorted
  have hyounger : s.younger u = (post.map fun v => s.uops v.seq) ++ s.dec.pending := by
    rw [younger, hwin, filter_gt_of_sorted hsorted]
  have hfst : ((post.map fun v => (s.uops v.seq, s.Believed v)) ++ s.waiting).map Prod.fst =
      s.younger u := by
    rw [hyounger, waiting, List.map_append, List.map_map, List.map_map]
    exact congrArg (_ ++ ·) (List.map_id _)
  obtain ⟨a, htrail, hend⟩ := hpath
  rw [inWindow, if_neg hu.state, hwin, List.map_append, List.map_cons, List.append_assoc,
    List.cons_append] at htrail
  rw [← htrail.next_eq hbel, follow, ← hfst, List.head?_map, Option.map_map]
  cases hrest : (post.map fun v => (s.uops v.seq, s.Believed v)) ++ s.waiting with
  | cons x l => rfl
  | nil =>
    obtain rfl := List.map_eq_nil_iff.mp (List.append_eq_nil_iff.mp hrest).1
    refine (hend (not_stale_of_last ho hsret hu hbel fun v hv => ?_)).symm
    rw [hwin, List.mem_append, List.mem_singleton] at hv
    rcases hv with hv | rfl
    · exact ((List.pairwise_append.mp hsorted).2.2 v hv u List.mem_cons_self).le
    · exact le_rfl

/-! ### The invariant -/

structure PredictInv (s : PredictStage c n) (log : PathLog) : Prop where
  front : Front s.front
  dec : ∃ dlog, DecodeStage.DecodeInv s.dec dlog
  ordered : s.dec.core.Ordered
  quiet : s.stale = true → s.Quiet
  sret : s.SretLast
  held : ∀ b ∈ s.dec.fetchBuffer.held, b.Ok
  uops : ∀ u ∈ s.dec.core.rob.window, UopOk u (s.uops u.seq)
  rows : RowsOk s
  path : s.OnPath
  exe : s.ExeOk
  log : Leads Fetched.addr Fetched.next log.start (log.path.map fun f => (f, f.xcptIf = false))
    s.front.nextAddr

theorem PredictInv.of_isReset (h : s.IsReset) : PredictInv s ⟨startAddr, []⟩ where
  front := .of_isReset h.front
  dec := ⟨_, .of_isReset h.dec⟩
  ordered := h.dec.core.ordered
  quiet _ := .inr ⟨h.front.icacheValid, h.front.s2XcptIf⟩
  sret _ := by
    refine ⟨Core.window_of_isReset h.dec.core.rob, ?_⟩
    rw [h.dec.core.rob.state]
    simp
  held b hb := by
    rw [h.dec.fetchBuffer.held] at hb
    cases hb
  uops u hu := by
    rw [Core.window_of_isReset h.dec.core.rob] at hu
    cases hu
  rows := by
    refine ⟨fun x hx => ?_, fun x _ hx => ?_⟩
    · rw [h.dec.core.rob.val x] at hx
      cases hx
    · rw [h.dec.core.rob.val x] at hx
      cases hx
  path := by
    refine ⟨s.front.nextAddr, ?_, fun _ => rfl⟩
    rw [inWindow_of_nil (Core.window_of_isReset h.dec.core.rob), waiting, DecodeStage.pending,
      h.dec.fetchBuffer.held]
    exact .nil
  exe e he := by
    rw [h.exeReg] at he
    cases he
  log := by
    show startAddr = s.front.nextAddr
    rw [Frontend.nextAddr, h.front.s2Valid, if_pos rfl, h.front.s2Pc]

theorem PredictInv.next {k : ℕ} (hrows : c.numRobRows = 2 ^ k) {log : PathLog}
    (h : PredictInv s log) (hok : i.Ok s) : PredictInv (s.next i) (s.nextLog i log) := by
  obtain ⟨dlog, hdec⟩ := h.dec
  have hall := bundles_ok h.front hok h.held
  refine ⟨h.front.next, ⟨_, hdec.next⟩, h.ordered.next hok.core, fun hstale => ?_,
    sretLast_next h.ordered fun u hu => (h.uops u hu).sret, held_next_ok hall,
    uopOk_next h.ordered hok hall h.uops, h.rows.next h.ordered hall,
    h.path.next h.front h.quiet hdec h.ordered h.sret,
    ExeOk.next hrows h.ordered h.rows h.path h.uops, leads_nextLog h.front h.quiet h.log⟩
  rw [stale_next] at hstale
  obtain ⟨pc, hpc⟩ := Option.isSome_iff_exists.mp hstale
  exact (nextAddr_of_redirect hpc).2

theorem reachable_predictInv {k : ℕ} (hrows : c.numRobRows = 2 ^ k) {log : PathLog}
    (h : (machine c n).Reachable (s, log)) : PredictInv s log := by
  refine Machine.invariant (I := fun x : PredictStage c n × PathLog => PredictInv x.1 x.2) ?_ ?_
    (s, log) h
  · rintro ⟨s, log⟩ ⟨hreset, rfl⟩
    exact .of_isReset hreset
  · rintro ⟨s, log⟩ i ⟨s', log'⟩ _ h ⟨hok, rfl, rfl⟩
    exact h.next hrows hok

/-! ### The branch unit -/

omit [NeZero n] in
theorem executed_eq_some {u : RobUop c} {U : BranchUnit} (h : s.executed i = some (u, U)) :
    ∃ e, s.exeReg = some e ∧ u ∈ s.dec.core.brs ∧ u.seq = e.seq ∧
      s.dec.core.rob.flushPipeline = false ∧ isKilledByBranch s.dec.core.brinfo u.brMask = false ∧
      s.unit i e = U := by
  obtain ⟨e, he, h⟩ := Option.bind_eq_some_iff.mp h
  obtain ⟨v, hv, heq⟩ := Option.map_eq_some_iff.mp h
  obtain ⟨rfl, rfl⟩ := Prod.mk.inj heq
  obtain ⟨hfind, hlive⟩ := Option.filter_eq_some_iff.mp hv
  obtain ⟨w, hw⟩ := Option.isSome_iff_exists.mp hlive
  obtain ⟨hflush, hkill, -⟩ := Core.brFilter_eq_some.mp hw
  have hseq : v.seq = e.seq := by simpa using List.find?_some hfind
  exact ⟨e, he, List.mem_of_find?_eq_some hfind, hseq, hflush, hkill, rfl⟩

omit [NeZero n] in
theorem survives_of_executed (ho : s.dec.core.Ordered) {u : RobUop c} {U : BranchUnit}
    (h : s.executed i = some (u, U)) : s.Survives u := by
  obtain ⟨e, -, hu, -, hflush, hkill, -⟩ := executed_eq_some h
  exact ⟨ho.mem_window (Core.mem_pending_of_brs hu), (slot_of_brs ho hu hflush).2.2, hflush, hkill⟩

/-- The branch unit works with what belongs to the branch. -/
theorem unit_of_executed {log : PathLog} (h : PredictInv s log) {u : RobUop c} {U : BranchUnit}
    (hex : s.executed i = some (u, U)) :
    (U.uop = s.uops u.seq ∧ U.rs1 = i.rs1 ∧ U.rs2 = i.rs2) ∧
      Inst.isBrOrJmp (s.uops u.seq).inst = true ∧ U.currPc = (s.uops u.seq).pc ∧
      ((s.uops u.seq).xcptIf = false → (s.uops u.seq).btbPredTaken = true → U.nextVal = true →
        U.nextPc = (wordAddr (s.uops u.seq).next).setWidth 64) := by
  obtain ⟨e, he, hu, hseq, -, -, rfl⟩ := executed_eq_some hex
  have hpend := Core.mem_pending_of_brs hu
  have hbr := h.ordered.allocates u hpend
  rw [DecUop.allocatesBrTag, Bool.and_eq_true] at hbr
  rw [← (h.uops u (h.ordered.mem_window hpend)).isBrOrJmp]
  exact ⟨⟨congrArg s.uops hseq.symm, rfl, rfl⟩, hbr.1, h.exe e he u hu hseq⟩

/-- The architectural successor of a micro-op, with the operands the branch unit is given. -/
def successor (s : PredictStage c n) (i : PredictInput c) (u : RobUop c) : BitVec 64 :=
  archNext ((s.uops u.seq).addr.signExtend 64) (s.uops u.seq).inst i.rs1 i.rs2

section

variable {log : PathLog} (h : PredictInv s log) {u : RobUop c} {U : BranchUnit}
  (hex : s.executed i = some (u, U)) (hma : (s.uops u.seq).xcptMa = false)
include h hex hma

theorem follow_of_not_mispredict
    (hif : (s.uops u.seq).xcptIf = false) (hcanon : Canonical (s.successor i u))
    (hword : Inst.isJalr (s.uops u.seq).inst = true → (s.uops u.seq).btbPredTaken = true →
      wordAddr (s.uops u.seq).next = (s.uops u.seq).next)
    (hmis : U.mispredict = false) : s.follow u = (s.successor i u).setWidth 44 := by
  have hlive := survives_of_executed h.ordered hex
  obtain ⟨⟨huop, hrs1, hrs2⟩, hctl, hpc, hrow⟩ := unit_of_executed h hex
  obtain ⟨e, he, hu, hseq, -⟩ := executed_eq_some hex
  rw [follow_eq h.ordered h.sret h.path hlive ⟨hif, fun _ => ⟨u, hu, rfl⟩⟩]
  have hok := (h.uops u hlive.mem).insts
  rw [successor, ← huop, ← hrs1, ← hrs2] at hcanon ⊢
  rw [← huop] at hma hctl hpc hword hok hif hrow
  exact BranchUnit.next_eq_of_not_mispredict hok hma hctl hpc (hrow hif) hword hcanon hmis

/-- The target that comes with a misprediction is the successor. -/
theorem redirect_of_executed (hcanon : Canonical (s.successor i u)) :
    discardLsb U.redirect = (s.successor i u).setWidth 44 := by
  obtain ⟨⟨huop, hrs1, hrs2⟩, -, hpc, -⟩ := unit_of_executed h hex
  have hok := (h.uops u (survives_of_executed h.ordered hex).mem).insts
  rw [(hok.pc_setWidth hma).1] at hpc
  have hword := hok.aligned hma
  rw [successor, ← hrs1, ← hrs2] at hcanon ⊢
  rw [← huop] at hpc hword hcanon ⊢
  exact BranchUnit.redirect_eq hpc hword hcanon

end

/-- A jump is followed by its target; nothing checks it again. -/
theorem follow_of_isJal {log : PathLog} (h : PredictInv s log) {u : RobUop c} (hu : s.Survives u)
    (hma : (s.uops u.seq).xcptMa = false) (hif : (s.uops u.seq).xcptIf = false)
    (hjal : Inst.isJal (s.uops u.seq).inst = true) (rs1 rs2 : BitVec 64) :
    s.follow u = (archNext ((s.uops u.seq).addr.signExtend 64) (s.uops u.seq).inst rs1
      rs2).setWidth 44 := by
  obtain ⟨hok, -, hisJal, -⟩ := h.uops u hu.mem
  have hbel : s.Believed u := by
    refine ⟨hif, fun hbr => ?_⟩
    rw [DecUop.allocatesBrTag, hisJal, hjal, Bool.not_true, Bool.and_false] at hbr
    cases hbr
  have hnone := BranchUnit.brType_of_isJal hjal
  have htakes : Inst.takes (s.uops u.seq).inst rs1 rs2 = true := by
    rw [Inst.takes, hnone.1, hjal]
    rfl
  rw [follow_eq h.ordered h.sret h.path hu hbel, archNext_setWidth, if_pos htakes, hnone.2,
    if_neg (by simp)]
  exact hok.next_of_predicted hma (by rw [hjal, Bool.or_true]) (by rw [hjal, Bool.or_true])

/-- **Prediction and resolution agree.** In every run:

* what enters the fetch buffer between two redirects is one path: behind an instruction that was
  fetched without a page fault comes the one its prediction names
* when a branch or `JALR` is executed, a right prediction of a branch is never called a
  misprediction; what the front end makes of the redirect is the successor; and if the instruction
  behind it is not the successor, a misprediction is signalled
* behind a `JAL` comes its target -/
theorem predicted_path (c : BOOMConf) (n : ℕ) [NeZero n] (k : ℕ) (hrows : c.numRobRows = 2 ^ k) :
    ∀ s log, (machine c n).Reachable (s, log) → ∀ i, i.Ok s →
      (∃ b, Leads Fetched.addr Fetched.next log.start
        ((log.path ++ (s.entered i).flatMap FetchBundle.valid).map fun f => (f, f.xcptIf = false))
        b) ∧
      (∀ u U, s.executed i = some (u, U) →
        (s.uops u.seq).xcptMa = false → (s.uops u.seq).xcptIf = false →
          (Inst.isBr (s.uops u.seq).inst = true →
            ((s.uops u.seq).btbPredTaken || (s.uops u.seq).brTaken) =
              Inst.takes (s.uops u.seq).inst i.rs1 i.rs2 → U.mispredict = false) ∧
          (Canonical (s.successor i u) →
            (U.mispredict = true → discardLsb U.redirect = (s.successor i u).setWidth 44) ∧
            ((Inst.isJalr (s.uops u.seq).inst = true → (s.uops u.seq).btbPredTaken = true →
                wordAddr (s.uops u.seq).next = (s.uops u.seq).next) →
              s.follow u ≠ (s.successor i u).setWidth 44 → U.mispredict = true))) ∧
      ∀ u, s.Survives u → (s.uops u.seq).xcptMa = false → (s.uops u.seq).xcptIf = false →
        Inst.isJal (s.uops u.seq).inst = true → s.follow u = (s.successor i u).setWidth 44 := by
  intro s log hreach i hok
  have h := reachable_predictInv hrows hreach
  refine ⟨?_, fun u U hex hma hif => ⟨fun hbr hright => ?_, fun hcanon => ⟨fun _ => ?_,
    fun hword hne => ?_⟩⟩, fun u hu hma hif hjal => ?_⟩
  · obtain ⟨b, hleads, -⟩ := leads_entered (i := i) h.front h.quiet
    rw [List.map_append]
    exact ⟨b, leads_append.mpr ⟨_, h.log, hleads⟩⟩
  · obtain ⟨⟨huop, hrs1, hrs2⟩, -⟩ := unit_of_executed h hex
    have hbrOk := (h.uops u (survives_of_executed h.ordered hex).mem).insts.br
    rw [← huop] at hbr hright hbrOk
    rw [← hrs1, ← hrs2] at hright
    exact BranchUnit.not_mispredict hbr hright fun htaken => (hbrOk htaken).2
  · exact redirect_of_executed h hex hma hcanon
  · by_contra hmis
    exact hne (follow_of_not_mispredict h hex hma hif hcanon hword (by simpa using hmis))
  · exact follow_of_isJal h hu hma hif hjal _ _

/-- Bundles of `beq x0, x0, 16` and a zero, as long as the cache hits. -/
def beqInput (hit : Bool) (iss : Option ℕ) : PredictInput .tiny :=
  { fetchInput .tiny false with
    icacheHit := hit
    icacheValid := hit
    data := fun w => if w = 0 then 0x863 else 0
    core := .feed true (fun _ => branchDecode .tiny ⟨0, 0, false, false, false, false, 0, 0⟩) []
    iss := iss }

omit [NeZero n] in
theorem beqInput_ok {s : PredictStage .tiny n} {hit : Bool} {iss : Option ℕ}
    (h : s.front.s2BtbHit = false) : (beqInput hit iss).Ok s where
  core _ _ _ := rfl
  branches _ := ⟨rfl, rfl⟩
  sret _ h := absurd (show false = true from h) Bool.false_ne_true
  btb r hr htaken := by
    rw [(Front.resp_eq hr).1, h] at htaken
    cases htaken

/-- The branch is dispatched in the third cycle, and issued in the fourth. -/
def afterIssue : PredictStage .tiny DecodeStage.fetchBufferSz × PathLog :=
  Machine.cycles next nextLog
    [beqInput true none, beqInput true none, beqInput true none, beqInput false (some 0)]
    (reset .tiny, ⟨startAddr, []⟩)

/-- It is taken against its prediction: a misprediction is signalled, with its target. -/
theorem predicted_path_beq :
    (∃ b, Leads Fetched.addr Fetched.next afterIssue.2.start
      ((afterIssue.2.path ++ (afterIssue.1.entered (beqInput false none)).flatMap
        FetchBundle.valid).map fun f => (f, f.xcptIf = false)) b) ∧
    ∃ u U, afterIssue.1.executed (beqInput false none) = some (u, U) ∧ U.mispredict = true ∧
      discardLsb U.redirect = 0x2010 := by
  have hstart : (machine .tiny DecodeStage.fetchBufferSz).Reachable
      (reset .tiny, ⟨startAddr, []⟩) := .init ⟨isReset_reset .tiny, rfl⟩
  have hreach : (machine .tiny DecodeStage.fetchBufferSz).Reachable
      (afterIssue.1, afterIssue.2) := by
    rw [Prod.mk.eta]
    exact Machine.reachable_restrict_cycles hstart _ ⟨beqInput_ok rfl,
      beqInput_ok (by decide +kernel), beqInput_ok (by decide +kernel),
      beqInput_ok (by decide +kernel), trivial⟩
  have hpath := predicted_path .tiny DecodeStage.fetchBufferSz 1 rfl afterIssue.1 afterIssue.2
    hreach (beqInput false none) (beqInput_ok (by decide +kernel))
  obtain ⟨⟨u, U⟩, hex⟩ := Option.isSome_iff_exists.mp (show
    (afterIssue.1.executed (beqInput false none)).isSome = true by decide +kernel)
  have hfacts : (afterIssue.1.executed (beqInput false none)).all (fun x =>
      !(afterIssue.1.uops x.1.seq).xcptMa && !(afterIssue.1.uops x.1.seq).xcptIf &&
        afterIssue.1.successor (beqInput false none) x.1 == 0x2010 && x.2.mispredict) = true := by
    decide +kernel
  rw [hex, Option.all_some] at hfacts
  simp only [Bool.and_eq_true, Bool.not_eq_true', beq_iff_eq] at hfacts
  obtain ⟨⟨⟨hma, hif⟩, hsucc⟩, hmis⟩ := hfacts
  have hcanon : Canonical (afterIssue.1.successor (beqInput false none) u) := by
    rw [hsucc]
    exact ⟨by decide, by decide⟩
  refine ⟨hpath.1, u, U, hex, hmis, ?_⟩
  rw [((hpath.2.1 u U hex hma hif).2 hcanon).1 hmis, hsucc]
  rfl

/-- `jalr x0, 0(x1)` at address `0x2000`, with a target of the branch target buffer or without. -/
def jalrAt (btbTarget : Option VAddr) : Fetched :=
  ⟨0x2000, 0x8067, false, btbTarget.isSome, false, false, 0x2000, btbTarget.getD 0⟩

/-- It is executed, and the row behind it is read as it was fetched. -/
def jalrUnit (btbTarget : Option VAddr) (rs1 : BitVec 64) : BranchUnit :=
  ⟨jalrAt btbTarget, rs1, 0, 0x2000, btbTarget.isSome,
    (wordAddr (jalrAt btbTarget).next).setWidth 64⟩

/-- What is not promised does not hold. After a page fault the bundle is fetched again, so that the
address behind its last instruction is not the next one. And for a `JALR`:

* the redirect to an odd target is odd
* the redirect to a target outside of the address space is another address
* a target of the branch target buffer two above the successor passes for the successor -/
theorem predicted_path_limits :
    (∃ (s : PredictStage .chip DecodeStage.fetchBufferSz) (log : PathLog),
      (machine .chip _).Reachable (s, log) ∧
        ¬∃ b, Leads Fetched.addr Fetched.next log.start (log.path.map fun f => (f, True)) b) ∧
    ((jalrUnit none 0x4001).mispredict = true ∧
      (jalrUnit none 0x4001).redirect ≠ (archNext 0x2000 0x8067 0x4001 0).setWidth 44) ∧
    ((jalrUnit none (2 ^ 42)).mispredict = true ∧ discardLsb (jalrUnit none (2 ^ 42)).redirect ≠
      (archNext 0x2000 0x8067 (2 ^ 42) 0).setWidth 44) ∧
    ((jalrUnit (some 0x4002) 0x4000).mispredict = false ∧ (jalrAt (some 0x4002)).next ≠
      (archNext 0x2000 0x8067 0x4000 0).setWidth 44) := by
  refine ⟨?_, by decide +kernel, by decide +kernel, by decide +kernel⟩
  obtain ⟨s, hreach, -⟩ := exists_fetching .chip true 5 (by decide +kernel)
  refine ⟨s, _, hreach, ?_⟩
  have hpath : (fetchBundles .chip true 5).flatMap FetchBundle.valid =
      [⟨0x2000, 0, false, false, false, true, 0x2000, 0⟩,
        ⟨0x2004, 0, false, false, false, true, 0x2004, 0⟩,
        ⟨0x2000, 0, false, false, false, true, 0x2000, 0⟩,
        ⟨0x2004, 0, false, false, false, true, 0x2004, 0⟩] := by decide +kernel
  rw [hpath]
  rintro ⟨b, -, a₁, -, -, a₂, hnext, haddr, -⟩
  -- the second instruction is followed by the first one
  rw [hnext trivial] at haddr
  exact absurd haddr (by decide)

end PredictStage

end RiscvSoc
