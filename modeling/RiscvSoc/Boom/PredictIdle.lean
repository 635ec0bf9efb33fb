import RiscvSoc.Boom.PredictTrail

/-!
# A core that only fetches

While the load queue is full nothing is dispatched, and a core with nothing in it stays that way. It
redirects nobody, so the front end runs on its own and fills the fetch buffer. Runs of this kind are
easy to follow: what enters the fetch buffer depends on the registers of the front end only.
-/

namespace RiscvSoc

variable {c : BOOMConf} {n : ℕ}

namespace PredictStage

/-- Nothing is in the core. -/
structure Idle (s : PredictStage c n) : Prop where
  val : ∀ x, (s.dec.core.rob.entry x).val = false
  brs : s.dec.core.brs = []
  brReg : s.dec.core.brReg = none
  flush : s.dec.core.rob.flushPipeline = false
  sret : s.dec.sretCommitted = false
  exeReg : s.exeReg = none

variable {s : PredictStage c n} {i : PredictInput c}

theorem disMask_of_laqFull (hfull : i.core.laqFull = true) (w : Bank c) :
    s.dec.core.disMask (s.coreInput i) w = false := by
  have hlaq : (s.coreInput i).laqFull = true := hfull
  rw [Core.disMask_eq_willFire, Core.willFire, Core.goesAhead, Core.stallMe, hlaq]
  simp

theorem newUops_of_laqFull (hfull : i.core.laqFull = true) :
    s.dec.core.newUops (s.coreInput i) = [] := by
  refine List.eq_nil_iff_forall_not_mem.mpr fun u hu => ?_
  obtain ⟨w, hw, -⟩ := Core.mem_newUops.mp hu
  rw [disMask_of_laqFull hfull] at hw
  cases hw

namespace Idle

section

variable (h : s.Idle)
include h

theorem willCommit (w : Bank c) : s.dec.core.rob.willCommit w = false := by
  rw [Rob.willCommit, Rob.canCommit, Rob.headVal, h.val]
  rfl

theorem exceptionThrown : s.dec.core.rob.exceptionThrown = false := by
  rw [← Bool.not_eq_true, Rob.exceptionThrown_eq_true]
  rintro ⟨-, w, hw, -⟩
  rw [Rob.headVal, h.val] at hw
  cases hw

theorem comSret : s.comSret = false := by
  rw [PredictStage.comSret, ← Bool.not_eq_true, orR_eq_true]
  rintro ⟨w, hw⟩
  rw [h.willCommit w] at hw
  cases hw

theorem flushVal : s.dec.core.rob.flushVal = false := by
  rw [Rob.flushVal, h.exceptionThrown, Bool.false_or, ← Bool.not_eq_true, orR_eq_true]
  rintro ⟨w, hw⟩
  rw [h.willCommit w] at hw
  cases hw

theorem executed : s.executed i = none := by
  rw [PredictStage.executed, h.exeReg]
  rfl

theorem redirect : s.redirect i = none := by
  rw [PredictStage.redirect, Rob.comException, h.exceptionThrown, h.comSret, h.flushVal, brTakePc,
    h.executed]
  rfl

theorem mispredicts : s.dec.core.mispredicts = false := by
  rw [Core.mispredicts, Core.brinfo, h.brReg]
  rfl

theorem fetchbufferKill : s.dec.fetchbufferKill = false := by
  rw [DecodeStage.fetchbufferKill, h.mispredicts, Rob.comException, h.exceptionThrown, h.flush,
    h.sret]
  rfl

end

/-- **The core stays idle.** -/
theorem next [NeZero n] (h : s.Idle) (hfull : i.core.laqFull = true) (hiss : i.iss = none) :
    (s.next i).Idle where
  val x := by
    rw [← Bool.not_eq_true]
    intro hx
    rcases (Rob.val_next_eq_true.mp hx).2 with hfill | hval
    · have hdis : s.dec.core.disMask (s.coreInput i) x.2 = true := (Rob.fills_eq_true.mp hfill).2
      rw [disMask_of_laqFull hfull] at hdis
      cases hdis
    · rw [h.val] at hval
      cases hval
  brs := by
    show (s.dec.core.brsLeft (s.coreInput i)).filterMap s.dec.core.brFilter ++
      (s.dec.core.newUops (s.coreInput i)).filter _ = []
    rw [newUops_of_laqFull hfull, Core.brsLeft, h.brs]
    split <;> rfl
  brReg := by
    show s.dec.core.nextBrReg (s.coreInput i) = none
    rw [nextBrReg_eq, h.executed]
    rfl
  flush := h.flushVal
  sret := h.comSret
  exeReg := by
    show s.nextExeReg i = none
    rw [nextExeReg, hiss]
    rfl

/-! ### The front end on its own -/

theorem front_next [NeZero n] (h : s.Idle) (hready : s.enqReady i = true)
    (htake : ∀ r, s.resp i = some r → r.takePc i.bhtTaken = false) :
    (s.next i).front =
      s.front.next ⟨i.icacheHit, i.data, i.icacheValid, i.pageFault, i.btb, none, true⟩ := by
  have hreq : s.req i = none := by
    rw [req, h.redirect, bp2TakePc]
    cases hr : s.resp i with
    | none => rfl
    | some r =>
      rw [Option.bind_some, htake r hr, Bool.and_false, Bool.false_and]
      rfl
  show s.front.next (s.frontInput i) = _
  rw [frontInput, hreq, hready]

theorem entered (h : s.Idle) (hready : s.enqReady i = true) :
    s.entered i = ((s.resp i).map fun r => r.bundle i.bhtTaken).toList := by
  cases hr : s.resp i with
  | none => exact entered_of_stays (.inl hr)
  | some r => exact entered_of_fire h.fetchbufferKill hready hr

theorem length_held_next [NeZero n] (h : s.Idle) :
    (s.next i).dec.fetchBuffer.held.length ≤
      s.dec.fetchBuffer.held.length + (s.entered i).length := by
  have hheld : s.dec.bundles (s.decInput i) = _ ++ (s.next i).dec.fetchBuffer.held :=
    DecodeStage.held_next h.fetchbufferKill
  have hlen := congrArg List.length hheld
  rw [DecodeStage.bundles, List.length_append, List.length_append] at hlen
  exact (Nat.le_add_left _ _).trans hlen.ge

end Idle

end PredictStage

/-! ### Fetching nothing but zeros -/

/-- Decoders that know branches and jumps only. -/
def branchDecode (c : BOOMConf) (f : Fetched) : DecInst c where
  lrs1 := 0
  lrs2 := 0
  ldst := 0
  ldstRtype := .x
  lrs1Rtype := .x
  lrs2Rtype := .x
  isBrOrJmp := Inst.isBrOrJmp f.inst
  isJal := Inst.isJal f.inst
  brTag := 0
  brMask _ := false
  isSret := false
  isMemSpecial := false
  isFencei := false
  exception := false
  excCause := 0
  isStore := false
  isLoad := false
  isUnique := false
  flushOnCommit := false
  unique_of_flush _ := nofun
  busy_of_branch _ _ _ := ⟨rfl, rfl, rfl⟩

/-- A program of zeros, from a page that is there or that faults, while the load queue is full. -/
def fetchInput (c : BOOMConf) (fault : Bool) : PredictInput c where
  icacheHit := !fault
  data _ := 0
  icacheValid := !fault
  pageFault := fault
  btb := none
  bhtTaken := false
  decode := branchDecode c
  core :=
    { decValids := fun _ => false
      decInsts := fun _ => branchDecode c ⟨0, 0, false, false, false, false, 0, 0⟩
      disInstCanProceed := fun _ => false
      laqFull := true
      stqFull := false
      lsuFenceiRdy := false
      ldqIdx := fun _ => 0
      stqIdx := fun _ => 0
      wbPdsts := []
      wbRobIdxs := []
      lsuClrBsy := none
      memXcpt := none
      ldoXcpt := none
      exe := none }
  pcrExcTarget := 0
  iss := none
  rs1 := 0
  rs2 := 0

/-- The front end in such a run. -/
def fetchFront (W : ℕ) [NeZero W] (fault : Bool) : ℕ → Frontend W
  | 0 => Frontend.reset W
  | k + 1 => (fetchFront W fault k).next ⟨!fault, fun _ => 0, !fault, fault, none, none, true⟩

/-- The bundles that entered the fetch buffer. -/
def fetchBundles (c : BOOMConf) (fault : Bool) : ℕ → List (FetchBundle c Fetched)
  | 0 => []
  | k + 1 => fetchBundles c fault k ++
      (((fetchFront c.decodeWidth fault k).resp
        ⟨!fault, fun _ => 0, !fault, fault, none, none, false⟩).map fun r => r.bundle false).toList

theorem s2BtbHit_fetchFront {W : ℕ} [NeZero W] (fault : Bool) (k : ℕ) :
    (fetchFront W fault k).s2BtbHit = false := by
  induction k with
  | zero => rfl
  | succ k ih =>
    show ((fetchFront W fault k).moved
      ⟨!fault, fun _ => 0, !fault, fault, none, none, true⟩).s2BtbHit = false
    rw [Frontend.moved]
    split
    · exact ih
    · split
      · exact ih
      · rfl

namespace PredictStage

variable {s : PredictStage c n} {i : PredictInput c} {fault : Bool}

theorem takePc_of_data {W : ℕ} [NeZero W] {r : FrontendResp W} (h : ∀ w, r.data w = 0) :
    r.takePc false = false := by
  have hbr : r.brVal = false := by
    rw [FrontendResp.brVal, ← Bool.not_eq_true, orR_eq_true]
    rintro ⟨w, hw⟩
    rw [FrontendResp.brs, h w, show Inst.isBr 0 = false by decide] at hw
    cases hw
  have hjal : r.jalVal = false := by
    rw [FrontendResp.jalVal, ← Bool.not_eq_true, orR_eq_true]
    rintro ⟨w, hw⟩
    rw [FrontendResp.jals, h w, show Inst.isJal 0 = false by decide] at hw
    cases hw
  rw [FrontendResp.takePc, FrontendResp.wantsToTakePc, hbr, hjal]
  simp

theorem fetchInput_ok [NeZero n] (h : s.front.s2BtbHit = false) : (fetchInput c fault).Ok s where
  core _ _ _ := rfl
  branches _ := ⟨rfl, rfl⟩
  sret _ := nofun
  btb r hr htaken := by
    rw [(Front.resp_eq hr).1, h] at htaken
    cases htaken

/-- The circuit after reset, every other register cleared. -/
def reset (c : BOOMConf) : PredictStage c DecodeStage.fetchBufferSz where
  front := Frontend.reset c.decodeWidth
  dec := DecodeStage.reset ⟨fun _ => false, fun _ => ⟨0, 0, false, false, false, false, 0, 0⟩⟩
  robPcHob := ⟨fun _ => 0, fun _ => 0⟩
  exeReg := none
  uops _ := ⟨0, 0, false, false, false, false, 0, 0⟩

theorem isReset_reset (c : BOOMConf) : (reset c).IsReset :=
  ⟨Frontend.isReset_reset, DecodeStage.isReset_reset _, rfl⟩

/-- **Such a run**, as long as the fetch buffer has room. -/
theorem exists_fetching (c : BOOMConf) (fault : Bool) (k : ℕ)
    (hroom : ∀ j < k, (fetchBundles c fault j).length < DecodeStage.fetchBufferSz) :
    ∃ s : PredictStage c DecodeStage.fetchBufferSz,
      (machine c _).Reachable (s, ⟨startAddr, (fetchBundles c fault k).flatMap FetchBundle.valid⟩) ∧
      s.Idle ∧ s.front = fetchFront c.decodeWidth fault k ∧
      s.dec.fetchBuffer.held.length ≤ (fetchBundles c fault k).length := by
  induction k with
  | zero =>
    refine ⟨reset c, .init ⟨isReset_reset c, rfl⟩, ⟨fun _ => rfl, rfl, rfl, rfl, rfl, rfl⟩, rfl, ?_⟩
    rw [(isReset_reset c).dec.fetchBuffer.held]
    exact le_rfl
  | succ k ih =>
    obtain ⟨s, hreach, hidle, hfront, hlen⟩ := ih fun j hj =>
        hroom j (hj.trans (Nat.lt_succ_self k))
    have hready : s.enqReady (fetchInput c fault) = true := by
      rw [enqReady, Queue.enqReady_eq]
      simp [hlen.trans_lt (hroom k (Nat.lt_succ_self k))]
    have htake : ∀ r, s.resp (fetchInput c fault) = some r →
        r.takePc (fetchInput c fault).bhtTaken = false := by
      intro r hr
      refine takePc_of_data fun w => ?_
      rw [(Front.resp_eq hr).1]
      rfl
    have hbundles : fetchBundles c fault (k + 1) =
        fetchBundles c fault k ++ s.entered (fetchInput c fault) := by
      rw [hidle.entered hready, fetchBundles, ← hfront]
      rfl
    refine ⟨s.next (fetchInput c fault), .step hreach ⟨fetchInput_ok ?_, rfl, ?_⟩,
      hidle.next rfl rfl, ?_, ?_⟩
    · rw [hfront]
      exact s2BtbHit_fetchFront fault k
    · rw [nextLog, hidle.redirect, hbundles, List.flatMap_append]
    · rw [hidle.front_next hready htake, hfront]
      rfl
    · rw [hbundles, List.length_append]
      exact hidle.length_held_next.trans (Nat.add_le_add_right hlen _)

end PredictStage

end RiscvSoc
