import RiscvSoc.Boom.PredictStage
import RiscvSoc.Boom.PredictWindow

/-!
# What is kept of a bundle

A bundle that enters the fetch buffer comes from one response of the front end: its program counters
are those of the slots behind an aligned address, and nothing is left behind an instruction that the
branch target buffer sent elsewhere. The table of row addresses has room for the aligned address
only, and what `get_pc` reads from it later is right because a row never holds micro-ops of two
bundles.
-/

namespace RiscvSoc

variable {c : BOOMConf} {n : ℕ}

/-! ### Bundles -/

/-- A bundle the front end can have given. -/
structure FetchBundle.Ok (b : FetchBundle c Fetched) : Prop where
  pc : ∀ w, (b.insts w).pc = (b.insts 0).pc + BitVec.ofNat 64 (4 * w)
  base : ((b.insts 0).pc >>> RobPCs.pcShift c) <<< RobPCs.pcShift c = (b.insts 0).pc
  alone : ∀ v w, v < w → b.mask v = true → (b.insts v).btbPredTaken = true → b.mask w = false
  insts : ∀ w, (b.insts w).Ok

theorem alignedFetchPc_shift {W : ℕ} (hW : W = 1 ∨ W = 2) (pc : VAddr) :
    (((alignedFetchPc W pc).setWidth 64) >>> fetchLsb W) <<< fetchLsb W =
      (alignedFetchPc W pc).setWidth 64 := by
  apply BitVec.eq_of_toNat_eq
  have hlt := pc.isLt
  rw [BitVec.toNat_shiftLeft, BitVec.toNat_ushiftRight, Nat.shiftLeft_eq, Nat.shiftRight_eq_div_pow,
    fetchLsb_pow hW, BitVec.toNat_setWidth, alignedFetchPc_toNat hW]
  rcases hW with rfl | rfl <;> omega

theorem FrontendResp.bundle_ok {r : FrontendResp c.decodeWidth} {bht : Bool}
    (hgood : r.xcptIf = false → goodVAddr r.pc = true) (hown : r.BtbOk) : (r.bundle bht).Ok where
  pc w := by
    show (alignedFetchPc _ r.pc).setWidth 64 + _ = (alignedFetchPc _ r.pc).setWidth 64 + _ + _
    rw [Fin.val_zero, Nat.mul_zero, BitVec.add_zero]
  base := by
    show (((alignedFetchPc _ r.pc).setWidth 64 + BitVec.ofNat 64 (4 * ((0 : Bank c) : ℕ)))
        >>> _) <<<
      _ = (alignedFetchPc _ r.pc).setWidth 64 + BitVec.ofNat 64 (4 * ((0 : Bank c) : ℕ))
    rw [Fin.val_zero, Nat.mul_zero, BitVec.add_zero, alignedFetchPc_shift c.decodeWidth_eq]
  alone v w hvw hv htaken := by
    rw [← Bool.not_eq_true]
    refine fun hw => FrontendResp.not_left_of_lt c.decodeWidth_eq hvw
      (FrontendResp.left_iff.mp hv).mask ?_ (FrontendResp.left_iff.mp hw)
    rw [FrontendResp.namesTarget, show (r.fetched bht v).btbPredTaken = true from htaken]
    rfl
  insts _ := FrontendResp.fetched_ok c.decodeWidth_eq hgood hown

/-! ### Micro-ops -/

/-- A micro-op and the instruction it was made of. -/
structure UopOk (u : RobUop c) (f : Fetched) : Prop where
  insts : f.Ok
  isBrOrJmp : u.isBrOrJmp = Inst.isBrOrJmp f.inst
  isJal : u.isJal = Inst.isJal f.inst
  sret : u.isSret = true → u.isUnique = true

namespace PredictStage

variable {s : PredictStage c n} {i : PredictInput c} {b : FetchBundle c Fetched}

/-! ### What enters the fetch buffer -/

theorem mem_entered (h : b ∈ s.entered i) :
    s.dec.fetchbufferKill = false ∧ s.enqReady i = true ∧
      ∃ r, s.resp i = some r ∧ r.bundle i.bhtTaken = b := by
  rw [entered, DecodeStage.entered, Queue.entered] at h
  split at h
  · rename_i hready
    have henq : s.dec.enq (s.decInput i) = some b := Option.mem_toList.mp h
    rw [DecodeStage.enq] at henq
    split at henq
    · cases henq
    · rename_i hkill
      obtain ⟨r, hr, rfl⟩ := Option.map_eq_some_iff.mp henq
      exact ⟨by simpa using hkill, hready, r, hr, rfl⟩
  · cases h

theorem entered_of_kill (hkill : s.dec.fetchbufferKill = true) : s.entered i = [] := by
  refine List.eq_nil_iff_forall_not_mem.mpr fun b hb => ?_
  rw [(mem_entered hb).1] at hkill
  cases hkill

theorem entered_of_fire {r : FrontendResp c.decodeWidth} (hkill : s.dec.fetchbufferKill = false)
    (hready : s.enqReady i = true) (hr : s.resp i = some r) :
    s.entered i = [r.bundle i.bhtTaken] := by
  have henq : s.dec.enq (s.decInput i) = some (r.bundle i.bhtTaken) := by
    rw [DecodeStage.enq, hkill, if_neg (by simp), decInput, hr]
    rfl
  show (if s.enqReady i = true then (s.dec.enq (s.decInput i)).toList else []) = _
  rw [if_pos hready, henq]
  rfl

theorem entered_of_stays (h : s.resp i = none ∨ s.enqReady i = false) : s.entered i = [] := by
  refine List.eq_nil_iff_forall_not_mem.mpr fun b hb => ?_
  obtain ⟨-, hready, r, hr, -⟩ := mem_entered hb
  rcases h with h | h
  · rw [hr] at h
    cases h
  · rw [hready] at h
    cases h

/-! ### What is dispatched -/

theorem nextUops_of_lt {q : ℕ} (hq : q < s.dec.core.count) : s.nextUops i q = s.uops q := by
  rw [nextUops, Core.find?_disSlots_of_lt hq]
  split
  · rename_i hnone
    cases hnone
  · rfl

variable {w : Bank c} {x : RobSlot c}

theorem nextUops_of_new (hb : s.dec.fbundle (s.decInput i) = some b)
    (hw : s.dec.core.disMask (s.coreInput i) w = true) :
    s.nextUops i (s.dec.core.disUops (s.coreInput i) w).seq = b.insts w := by
  rw [nextUops, hb, Core.find?_disSlots hw]

/-- Something that is dispatched is in the bundle that is shown. -/
theorem exists_shown (hw : s.dec.core.disMask (s.coreInput i) w = true) :
    ∃ b, s.dec.fbundle (s.decInput i) = some b ∧ b.mask w = true := by
  cases hb : s.dec.fbundle (s.decInput i) with
  | none =>
    have hmem := Core.mem_disSlots.mpr hw
    rw [DecodeStage.disSlots_of_none hb] at hmem
    cases hmem
  | some b =>
    have hvalid : s.dec.decValids (s.decInput i) w = true := (Core.goes_of_disMask hw).valid
    rw [DecodeStage.decValids_eq hb, Bool.and_eq_true] at hvalid
    exact ⟨b, rfl, hvalid.1⟩

/-! ### Row addresses -/

/-- What `get_pc` needs of the table of row addresses. -/
structure RowsOk (s : PredictStage c n) : Prop where
  pc : ∀ x, (s.dec.core.rob.entry x).val = true →
    s.robPcHob.read x.1 + BitVec.ofNat 64 (4 * x.2) = (s.uops (s.dec.core.rob.entry x).uop.seq).pc
  alone : ∀ x y, (s.dec.core.rob.entry x).val = true → (s.dec.core.rob.entry y).val = true →
    x.1 = y.1 → x.2 < y.2 → (s.uops (s.dec.core.rob.entry x).uop.seq).btbPredTaken = false

/-- The row at the tail is free when something is dispatched. -/
theorem row_ne_tail (ho : s.dec.core.Ordered) (hx : (s.dec.core.rob.entry x).val = true)
    (hw : s.dec.core.disMask (s.coreInput i) w = true) : x.1 ≠ s.dec.core.rob.tail := by
  have hnormal : s.dec.core.rob.state = .normal := ho.accepts.normal hw
  have hlt := ho.shaped.lt_tail (.inl (by rw [hnormal]; nofun)) x hx
  intro heq
  rw [heq] at hlt
  exact lt_irrefl _ hlt

theorem read_next_of_stays (ho : s.dec.core.Ordered) (hx : (s.dec.core.rob.entry x).val = true) :
    (s.nextRobPcHob i).read x.1 = s.robPcHob.read x.1 := by
  rw [nextRobPcHob]
  split
  · split
    · rename_i hdis
      obtain ⟨w, hw⟩ := orR_eq_true.mp hdis
      rw [RobPCs.read_write, if_neg (row_ne_tail ho hx hw)]
    · rfl
  · rfl

theorem read_next_of_fills (hb : s.dec.fbundle (s.decInput i) = some b) (hbok : b.Ok)
    (hw : s.dec.core.disMask (s.coreInput i) w = true) :
    (s.nextRobPcHob i).read s.dec.core.rob.tail = (b.insts 0).pc := by
  rw [nextRobPcHob, hb]
  show RobPCs.read (if orR (s.dec.core.disMask (s.coreInput i)) = true then _ else _) _ = _
  rw [if_pos (orR_eq_true.mpr ⟨w, hw⟩), RobPCs.read_write, if_pos rfl, hbok.base]

/-! ### One cycle -/

variable [NeZero n]

/-- What can be worked on is what was held and what the front end gives now. -/
theorem bundles_ok (hfront : Front s.front) (hok : i.Ok s)
    (hheld : ∀ b ∈ s.dec.fetchBuffer.held, b.Ok) : ∀ b ∈ s.dec.bundles (s.decInput i), b.Ok := by
  intro b hb
  rcases List.mem_append.mp hb with hb | hb
  · exact hheld b hb
  · obtain ⟨-, -, r, hr, rfl⟩ := mem_entered hb
    exact FrontendResp.bundle_ok (hfront.resp_good hr) (hok.btb r hr)

theorem held_next_ok (hall : ∀ b ∈ s.dec.bundles (s.decInput i), b.Ok) :
    ∀ b ∈ (s.next i).dec.fetchBuffer.held, b.Ok := by
  intro b hb
  cases hkill : s.dec.fetchbufferKill with
  | true =>
    rw [show (s.next i).dec.fetchBuffer.held = [] from DecodeStage.held_next_of_kill hkill] at hb
    cases hb
  | false =>
    refine hall b ?_
    rw [DecodeStage.held_next hkill]
    exact List.mem_append_right _ hb

theorem shown_ok (hall : ∀ b ∈ s.dec.bundles (s.decInput i), b.Ok)
    (hb : s.dec.fbundle (s.decInput i) = some b) : b.Ok := by
  rw [DecodeStage.fbundle_eq] at hb
  exact hall b (List.mem_of_head? hb)

theorem uopOk_new (hok : i.Ok s) (hall : ∀ b ∈ s.dec.bundles (s.decInput i), b.Ok) {w : Bank c}
    (hw : s.dec.core.disMask (s.coreInput i) w = true) :
    UopOk (s.dec.core.disUops (s.coreInput i) w)
      (s.nextUops i (s.dec.core.disUops (s.coreInput i) w).seq) := by
  obtain ⟨b, hb, -⟩ := exists_shown hw
  have hdec : (s.coreInput i).decInsts w = i.decode (b.insts w) := by
    show s.dec.decInsts (s.decInput i) w = _
    rw [DecodeStage.decInsts, hb]
    rfl
  rw [nextUops_of_new hb hw]
  refine ⟨(shown_ok hall hb).insts w, ?_, ?_, ?_⟩
  · show ((s.coreInput i).decInsts w).isBrOrJmp = _
    rw [hdec]
    exact (hok.branches _).1
  · show ((s.coreInput i).decInsts w).isJal = _
    rw [hdec]
    exact (hok.branches _).2
  · show ((s.coreInput i).decInsts w).isSret = true → ((s.coreInput i).decInsts w).isUnique = true
    rw [hdec]
    exact hok.sret _

theorem uopOk_next (ho : s.dec.core.Ordered) (hok : i.Ok s)
    (hall : ∀ b ∈ s.dec.bundles (s.decInput i), b.Ok)
    (huops : ∀ u ∈ s.dec.core.rob.window, UopOk u (s.uops u.seq)) :
    ∀ u ∈ (s.next i).dec.core.rob.window, UopOk u ((s.next i).uops u.seq) := by
  intro u' hu'
  rcases ho.mem_window_next.mp hu' with ⟨u, hu, -, rfl⟩ | hnew
  · have hsame : (s.next i).uops u.seq = s.uops u.seq := nextUops_of_lt (ho.lt_count u hu)
    obtain ⟨hinsts, hbr, hjal, hsret⟩ := huops u hu
    rw [RobUop.resolve_seq, hsame]
    exact ⟨hinsts, hbr, hjal, hsret⟩
  · obtain ⟨w, hw, rfl⟩ := Core.mem_newUops.mp hnew
    exact uopOk_new hok hall hw

/-- An entry after a cycle was there before, or it was dispatched into the row at the tail. -/
theorem entry_next (ho : s.dec.core.Ordered) {x : RobSlot c}
    (hx : ((s.next i).dec.core.rob.entry x).val = true) :
    ((s.dec.core.rob.entry x).val = true ∧
        ((s.next i).dec.core.rob.entry x).uop.seq = (s.dec.core.rob.entry x).uop.seq) ∨
      (x.1 = s.dec.core.rob.tail ∧ s.dec.core.disMask (s.coreInput i) x.2 = true ∧
        ((s.next i).dec.core.rob.entry x).uop = s.dec.core.disUops (s.coreInput i) x.2) := by
  obtain ⟨hkeep, hfill | hval⟩ := Rob.val_next_eq_true.mp hx
  · obtain ⟨htail, hdis⟩ := Rob.fills_eq_true.mp hfill
    exact .inr ⟨htail, hdis, Rob.uop_next_of_fills ho.shaped ho.accepts hfill⟩
  · refine .inl ⟨hval, ?_⟩
    exact congrArg (·.seq) (Rob.uop_next_of_stays ho.shaped ho.accepts hval hkeep)

theorem RowsOk.next (hrows : RowsOk s) (ho : s.dec.core.Ordered)
    (hall : ∀ b ∈ s.dec.bundles (s.decInput i), b.Ok) : RowsOk (s.next i) where
  pc x hx := by
    show (s.nextRobPcHob i).read x.1 + _ = (s.nextUops i _).pc
    rcases entry_next ho hx with ⟨hval, hseq⟩ | ⟨htail, hdis, huop⟩
    · rw [read_next_of_stays ho hval, hseq, hrows.pc x hval,
        nextUops_of_lt (ho.lt_count _ (Rob.mem_window.mpr ⟨x, hval, rfl⟩))]
    · obtain ⟨b, hb, -⟩ := exists_shown hdis
      have hbok := shown_ok hall hb
      rw [huop, nextUops_of_new hb hdis, htail, read_next_of_fills hb hbok hdis]
      exact (hbok.pc x.2).symm
  alone x y hx hy hrow hlt := by
    show (s.nextUops i _).btbPredTaken = false
    rcases entry_next ho hx with ⟨hval, hseq⟩ | ⟨htail, hdis, huop⟩
    · rw [hseq, nextUops_of_lt (ho.lt_count _ (Rob.mem_window.mpr ⟨x, hval, rfl⟩))]
      rcases entry_next ho hy with ⟨hval', -⟩ | ⟨htail, hdis, -⟩
      · exact hrows.alone x y hval hval' hrow hlt
      · exact absurd (hrow.trans htail) (row_ne_tail ho hval hdis)
    · rcases entry_next ho hy with ⟨hval', -⟩ | ⟨-, hdis', -⟩
      · exact absurd (hrow.symm.trans htail) (row_ne_tail ho hval' hdis)
      · obtain ⟨b, hb, hmask⟩ := exists_shown hdis
        obtain ⟨b', hb', hmask'⟩ := exists_shown hdis'
        obtain rfl : b = b' := Option.some.inj (hb.symm.trans hb')
        rw [huop, nextUops_of_new hb hdis, ← Bool.not_eq_true]
        intro htaken
        rw [(shown_ok hall hb).alone _ _ hlt hmask htaken] at hmask'
        cases hmask'

end PredictStage

end RiscvSoc
