import RiscvSoc.Boom.PredictRows
import RiscvSoc.Lib.Trail

/-!
# The path through the pipeline

The instructions in the reorder buffer and those that wait for dispatch form one path, and the front
end goes on where it ends. There are two exceptions. In the cycle after a redirect the path still
ends in instructions that are about to be killed, so its end is no promise then
(`PredictStage.stale`). And two kinds of instruction are on the path without a promise about the
next one: those that were fetched with a page fault, and branches that were executed. A mispredicted
branch is of the second kind when the front end is sent elsewhere, and nothing behind it is left to
say otherwise.

While the buffer is rolled back, nothing in it matters any more; only what waits for dispatch does.
-/

namespace RiscvSoc

open DecodeStage

variable {c : BOOMConf} {n : ℕ}

namespace PredictStage

/-! ### Redirects -/

section Redirect

variable (s : PredictStage c n)

/-- The last cycle redirected the front end. -/
def stale : Bool := s.dec.core.mispredicts || s.dec.core.rob.flushPipeline || s.dec.sretCommitted

/-- The front end has nothing to show. -/
def Quiet : Prop :=
  s.front.s2Valid = false ∨ (s.front.icacheValid = false ∧ s.front.s2XcptIf = false)

end Redirect

variable {s : PredictStage c n} {i : PredictInput c}

theorem fetchbufferKill_of_stale (h : s.stale = true) : s.dec.fetchbufferKill = true := by
  rw [stale, Bool.or_eq_true, Bool.or_eq_true] at h
  rw [fetchbufferKill]
  rcases h with (h | h) | h
  · rw [h]
    rfl
  · rw [h, Bool.or_true]
    rfl
  · rw [h, Bool.or_true]

theorem Quiet.resp (h : s.Quiet) : s.resp i = none := by
  rw [PredictStage.resp, Frontend.resp, if_neg]
  rcases h with h | ⟨h, h'⟩
  · rw [h]
    simp
  · rw [Frontend.icacheResp, h, h']
    simp

theorem nextAddr_of_redirect [NeZero n] {pc : VAddr} (h : s.redirect i = some pc) :
    (s.next i).front.nextAddr = discardLsb pc ∧ (s.next i).Quiet := by
  have hreq : (s.frontInput i).req = some pc := by
    show (s.redirect i).or _ = _
    rw [h]
    rfl
  obtain ⟨haddr, hvalid⟩ := Front.nextAddr_of_req (s := s.front) hreq
  exact ⟨haddr, .inl hvalid⟩

theorem nextBrReg_eq : s.dec.core.nextBrReg (s.coreInput i) =
    (s.executed i).map fun x => (x.1.resolve s.dec.core.brinfo, x.2.mispredict) := by
  have hexe : (s.coreInput i).exe = s.exe i := rfl
  rw [Core.nextBrReg, hexe, exe, executed]
  cases s.exeReg with
  | none => rfl
  | some e =>
    have hfind : s.dec.core.brs.find? (fun u => decide (u.seq = e.seq)) = _ :=
      List.find?_eq_bind_findIdx?_getElem?
    rw [Option.bind_some, Option.bind_some, hfind]
    cases s.dec.core.brs.findIdx? fun u => decide (u.seq = e.seq) with
    | none => rfl
    | some p =>
      show ((s.dec.core.brs[p]?).bind s.dec.core.brFilter).map _ = _
      rw [Option.bind_some]
      cases s.dec.core.brs[p]? with
      | none => rfl
      | some u =>
        simp only [Option.bind_some, Option.filter_some, Core.brFilter]
        cases s.dec.core.rob.flushPipeline <;>
          cases isKilledByBranch s.dec.core.brinfo u.brMask <;> rfl

theorem mispredicts_next [NeZero n] :
    (s.next i).dec.core.mispredicts = (s.brTakePc i).isSome := by
  show ((s.dec.core.nextBrReg (s.coreInput i)).map Core.brinfoOf).any (fun b => b.mispredict) = _
  rw [nextBrReg_eq, brTakePc]
  cases s.executed i with
  | none => rfl
  | some x =>
    show x.2.mispredict = (if x.2.mispredict = true then some x.2 else none).isSome
    cases x.2.mispredict <;> rfl

/-- **A cycle leaves the front end redirected** just when there is a redirect. -/
theorem stale_next [NeZero n] : (s.next i).stale = (s.redirect i).isSome := by
  have hflush : (s.next i).dec.core.rob.flushPipeline = s.dec.core.rob.flushVal := rfl
  have hsret : (s.next i).dec.sretCommitted = s.comSret := rfl
  have hexc : s.dec.core.rob.comException = true → s.dec.core.rob.flushVal = true := by
    intro h
    rw [Rob.flushVal, (Bool.and_eq_true_iff.mp h).1]
    rfl
  rw [stale, mispredicts_next, hflush, hsret, redirect]
  split
  · rename_i h
    rcases Bool.or_eq_true_iff.mp h with h | h
    · rw [hexc h, Bool.or_true]
      rfl
    · rw [h, Bool.or_true]
      rfl
  · rename_i h
    obtain ⟨-, hnosret⟩ := Bool.or_eq_false_iff.mp (Bool.not_eq_true _ ▸ h)
    rw [hnosret, Bool.or_false]
    split
    · rename_i hval
      rw [hval, Bool.or_true]
      rfl
    · rename_i hval
      rw [Bool.not_eq_true] at hval
      rw [hval, Bool.or_false, Option.isSome_map]

/-! ### What enters the fetch buffer -/

/-- Without a redirect, the front end goes on where the response says. -/
theorem nextAddr_of_response [NeZero n] (hfront : Front s.front)
    {r : FrontendResp c.decodeWidth} (hr : s.resp i = some r) (hready : s.enqReady i = true)
    (hmis : s.dec.core.mispredicts = false) (hnone : s.redirect i = none)
    (hgo : r.xcptIf = false) : (s.next i).front.nextAddr = r.goesOn i.bhtTaken := by
  have hreq : (s.frontInput i).req = s.bp2TakePc i := by
    show (s.redirect i).or _ = _
    rw [hnone]
    rfl
  rw [bp2TakePc, hr, Option.bind_some, hmis, hready, Bool.not_false, Bool.true_and,
    Bool.and_true] at hreq
  rw [FrontendResp.goesOn]
  cases htake : r.takePc i.bhtTaken with
  | true =>
    rw [htake] at hreq
    exact (Front.nextAddr_of_req (s := s.front) hreq).1
  | false =>
    rw [htake] at hreq
    exact hfront.nextAddr_of_fire hreq hr hready hgo

/-- **What enters the fetch buffer goes on where the front end was.** Without a redirect it leads to
where the front end is then. -/
theorem leads_entered [NeZero n] (hfront : Front s.front) (hquiet : s.stale = true → s.Quiet) :
    ∃ a, Leads Fetched.addr Fetched.next s.front.nextAddr
        (((s.entered i).flatMap FetchBundle.valid).map fun f => (f, f.xcptIf = false)) a ∧
      (s.redirect i = none → a = (s.next i).front.nextAddr) := by
  have hstays : s.resp i = none ∨ s.enqReady i = false →
      ∃ a, Leads Fetched.addr Fetched.next s.front.nextAddr
          (((s.entered i).flatMap FetchBundle.valid).map fun f => (f, f.xcptIf = false)) a ∧
        (s.redirect i = none → a = (s.next i).front.nextAddr) := by
    intro h
    refine ⟨s.front.nextAddr, by rw [entered_of_stays h]; rfl, fun hnone => ?_⟩
    have hreq : (s.frontInput i).req = none := by
      show (s.redirect i).or (s.bp2TakePc i) = none
      rw [hnone, bp2TakePc]
      rcases h with h | h
      · rw [h]
        rfl
      · rw [h]
        simp
    exact (hfront.nextAddr_of_stays hreq h).symm
  cases hr : s.resp i with
  | none => exact hstays (.inl hr)
  | some r =>
    cases hready : s.enqReady i with
    | false => exact hstays (.inr hready)
    | true =>
      have hfresh : s.stale = false := by
        rw [← Bool.not_eq_true]
        intro hstale
        rw [(hquiet hstale).resp] at hr
        cases hr
      rw [stale, Bool.or_eq_false_iff, Bool.or_eq_false_iff] at hfresh
      obtain ⟨⟨hmis, hflush⟩, hsret⟩ := hfresh
      cases hexc : s.dec.core.rob.comException with
      | true =>
        have hkill : s.dec.fetchbufferKill = true := by
          rw [fetchbufferKill, hexc, Bool.or_true]
          rfl
        refine ⟨s.front.nextAddr, by rw [entered_of_kill hkill]; rfl, fun hnone => ?_⟩
        rw [redirect, hexc] at hnone
        cases hnone
      | false =>
        have hkill : s.dec.fetchbufferKill = false := by
          rw [fetchbufferKill, hmis, hexc, hflush, hsret]
          rfl
        have hleads : ∀ a, (r.xcptIf = false → a = r.goesOn i.bhtTaken) →
            Leads Fetched.addr Fetched.next s.front.nextAddr
              (((s.entered i).flatMap FetchBundle.valid).map fun f => (f, f.xcptIf = false)) a := by
          intro a ha
          have hlead := FrontendResp.bundle_leads c.decodeWidth_eq (hfront.resp_mask hr)
            (hfront.resp_good hr) ha
          rw [Front.resp_pc hr] at hlead
          rw [entered_of_fire hkill hready hr, List.flatMap_singleton]
          exact hlead
        cases hnone : s.redirect i with
        | none =>
          exact ⟨_, hleads _ (nextAddr_of_response hfront hr hready hmis hnone), fun _ => rfl⟩
        | some pc => exact ⟨_, hleads _ fun _ => rfl, (by simp)⟩

/-! ### A return from an exception -/

/-- Nothing is left when a return from an exception has committed. -/
def SretLast (s : PredictStage c n) : Prop :=
  s.dec.sretCommitted = true → s.dec.core.rob.window = [] ∧ s.dec.core.rob.state ≠ .normal

theorem sretLast_next [NeZero n] (ho : s.dec.core.Ordered)
    (hunique : ∀ u ∈ s.dec.core.rob.window, u.isSret = true → u.isUnique = true) :
    (s.next i).SretLast := by
  intro hsret
  obtain ⟨w, hw⟩ := orR_eq_true.mp (show s.comSret = true from hsret)
  obtain ⟨hcom, hsret⟩ := Bool.and_eq_true_iff.mp hw
  have hcommits : s.dec.core.rob.commits (s.dec.core.rob.head, w) = true :=
    Rob.commits_eq_true.mpr ⟨rfl, hcom⟩
  have hval := Rob.val_of_commits hcommits
  have hroll := Rob.not_rollback_of_commits hcommits
  have hmem := Rob.mem_window.mpr ⟨_, hval, rfl⟩
  rw [Rob.comUops, Rob.comIdx, if_neg hroll] at hsret
  obtain ⟨hstate, hlast⟩ := ho.unique _ hmem (hunique _ hmem hsret)
  have hwaits : s.dec.core.rob.state = .waitTillEmpty := hstate.resolve_right hroll
  refine ⟨?_, ?_⟩
  · have hnew : s.dec.core.newUops (s.coreInput i) = [] :=
      Core.newUops_of_kill (.inr (.inr (by rw [hwaits]; simp)))
    refine List.eq_nil_iff_forall_not_mem.mpr fun u' hu' => ?_
    rcases ho.mem_window_next.mp hu' with ⟨u, hu, hkeep, -⟩ | hu'
    · have hcomU : s.dec.core.commits (s.dec.core.rob.entry (s.dec.core.rob.head, w)).uop =
          true := by
        rw [Core.commits, ho.shaped.addressed _ hval]
        exact hcommits
      have hno := (Rob.removes_eq_false.mp hkeep).1
      rw [show s.dec.core.rob.commits (robSlot u.robIdx) = true from
        ho.commits_of_seq_le hmem hu (hlast u hu) hcomU] at hno
      cases hno
    · rw [hnew] at hu'
      cases hu'
  · show s.dec.core.rob.nextState (s.dec.core.robInput (s.coreInput i)) ≠ .normal
    rw [Rob.nextState, hwaits]
    show (if s.dec.core.rob.exceptionThrown = true then RobState.rollback
      else if s.dec.core.rob.tail = s.dec.core.rob.head then .normal else .waitTillEmpty) ≠ .normal
    split
    · simp
    · rw [if_neg (ho.shaped.tail_ne_head hcommits)]
      simp

/-! ### The path -/

/-- A promise about the next instruction: none after a page fault, and none by a branch that was
executed. -/
def Believed (s : PredictStage c n) (u : RobUop c) : Prop :=
  (s.uops u.seq).xcptIf = false ∧
    (u.allocatesBrTag = true → ∃ b ∈ s.dec.core.brs, b.seq = u.seq)

/-- The path in the reorder buffer. -/
def inWindow (s : PredictStage c n) : List (Fetched × Prop) :=
  if s.dec.core.rob.state = .rollback then []
  else s.dec.core.rob.window.map fun u => (s.uops u.seq, s.Believed u)

theorem inWindow_of_nil (h : s.dec.core.rob.window = []) : s.inWindow = [] := by
  rw [inWindow, h]
  split <;> rfl

theorem map_newUops : ((s.dec.core.newUops (s.coreInput i)).map fun u => s.nextUops i u.seq) =
    s.dec.dispatched (s.decInput i) := by
  rw [dispatched, Core.newUops_eq]
  cases hb : s.dec.fbundle (s.decInput i) with
  | none =>
    rw [disSlots_of_none hb]
    rfl
  | some b =>
    rw [List.map_map]
    exact List.map_congr_left fun w hw => nextUops_of_new hb (Core.mem_disSlots.mp hw)

variable [NeZero n]

/-- The path that waits for dispatch. -/
def waiting (s : PredictStage c n) : List (Fetched × Prop) :=
  s.dec.pending.map fun f => (f, f.xcptIf = false)

/-- There is a path, and the front end goes on at its end. -/
def OnPath (s : PredictStage c n) : Prop :=
  ∃ a, Trail Fetched.addr Fetched.next (s.inWindow ++ s.waiting) a ∧
    (s.stale = false → a = s.front.nextAddr)

theorem waiting_next_of_kill (hkill : s.dec.fetchbufferKill = true) : (s.next i).waiting = [] := by
  have hnone : (s.next i).dec.pending = [] := by
    rw [pending,
      show (s.next i).dec.fetchBuffer.held = [] from held_next_of_kill hkill]
    rfl
  rw [waiting, hnone]
  rfl

variable {dlog : DecodeStage.DispatchLog Fetched}

/-- What waited and what entered is dispatched or still waits. -/
theorem waiting_append_entered (hdec : DecodeStage.DecodeInv s.dec dlog)
    (hkill : s.dec.fetchbufferKill = false) :
    s.waiting ++ ((s.entered i).flatMap FetchBundle.valid).map (fun f => (f, f.xcptIf = false)) =
      (s.dec.dispatched (s.decInput i)).map (fun f => (f, f.xcptIf = false)) ++
        (s.next i).waiting := by
  have hleft : s.dec.leftOver (s.decInput i) = (s.next i).dec.pending :=
    leftOver_eq hkill
  rw [waiting, waiting, ← hleft, ← List.map_append, ← List.map_append, ← undoneIn_eq,
    hdec.undoneIn_bundles]
  rfl

/-- A branch that is not executed was not executed before. -/
theorem believed_of_next (ho : s.dec.core.Ordered) {u : RobUop c}
    (hu : u ∈ s.dec.core.rob.window)
    (h : (s.next i).Believed (u.resolve s.dec.core.brinfo)) : s.Believed u := by
  obtain ⟨hgo, hbr⟩ := h
  have hlt := ho.lt_count u hu
  refine ⟨?_, fun hall => ?_⟩
  · rwa [RobUop.resolve_seq, show (s.next i).uops u.seq = s.uops u.seq from nextUops_of_lt hlt]
      at hgo
  · obtain ⟨b', hb', heq⟩ := hbr hall
    rw [RobUop.resolve_seq] at heq
    obtain ⟨b, hb, -, hseq⟩ := Core.Ordered.seq_of_brs_next hb' (heq ▸ hlt)
    exact ⟨b, hb, hseq.trans heq⟩

theorem leads_left (ho : s.dec.core.Ordered) {a m : VAddr} (h : Leads Fetched.addr Fetched.next a
      ((s.dec.core.left (s.coreInput i)).map fun u => (s.uops u.seq, s.Believed u)) m) :
    Leads Fetched.addr Fetched.next a
      (((s.dec.core.left (s.coreInput i)).map (RobUop.resolve s.dec.core.brinfo)).map
        fun u => ((s.next i).uops u.seq, (s.next i).Believed u)) m := by
  have hmem : ∀ u ∈ s.dec.core.left (s.coreInput i), u ∈ s.dec.core.rob.window := fun u hu =>
    (Core.Ordered.mem_left.mp hu).1
  have hsame : ((s.dec.core.left (s.coreInput i)).map (RobUop.resolve s.dec.core.brinfo)).map
        (fun u => ((s.next i).uops u.seq, (s.next i).Believed u)) =
      (s.dec.core.left (s.coreInput i)).map fun u =>
        (s.uops u.seq, (s.next i).Believed (u.resolve s.dec.core.brinfo)) := by
    rw [List.map_map]
    refine List.map_congr_left fun u hu => ?_
    exact congrArg (·, (s.next i).Believed (u.resolve s.dec.core.brinfo))
      (nextUops_of_lt (ho.lt_count u (hmem u hu)))
  rw [hsame]
  exact h.believe_less fun u hu => believed_of_next ho (hmem u hu)

theorem leads_newUops {a m : VAddr} (h : Leads Fetched.addr Fetched.next a
      ((s.dec.dispatched (s.decInput i)).map fun f => (f, f.xcptIf = false)) m) :
    Leads Fetched.addr Fetched.next a
      ((s.dec.core.newUops (s.coreInput i)).map
        fun u => ((s.next i).uops u.seq, (s.next i).Believed u)) m := by
  rw [← map_newUops, List.map_map] at h
  exact Leads.believe_less (f := fun u : RobUop c => s.nextUops i u.seq)
    (p := fun u => (s.nextUops i u.seq).xcptIf = false) h fun u _ hbel => hbel.1

theorem inWindow_next (hstate' : (s.next i).dec.core.rob.state ≠ .rollback)
    (ho : s.dec.core.Ordered) :
    (s.next i).inWindow =
      ((s.dec.core.left (s.coreInput i)).map (RobUop.resolve s.dec.core.brinfo)).map
          (fun u => ((s.next i).uops u.seq, (s.next i).Believed u)) ++
        (s.dec.core.newUops (s.coreInput i)).map
          fun u => ((s.next i).uops u.seq, (s.next i).Believed u) := by
  rw [inWindow, if_neg hstate', show (s.next i).dec.core.rob.window = _ from ho.window_next,
    List.map_append]
  rfl

theorem inWindow_next_of_rollback (ho : s.dec.core.Ordered)
    (h : s.dec.core.rob.state = .rollback ∨ (s.next i).dec.core.rob.state = .rollback) :
    (s.next i).inWindow = [] := by
  by_cases hnext : (s.next i).dec.core.rob.state = .rollback
  · exact if_pos hnext
  · exact inWindow_of_nil (ho.window_next_nil (h.resolve_right hnext) hnext)

/-! ### One cycle -/

/-- A mispredicted branch is left at the end, without a promise. -/
theorem trail_of_mispredicts (h : s.OnPath) (ho : s.dec.core.Ordered)
    (hstate : s.dec.core.rob.state ≠ .rollback)
    (hstate' : (s.next i).dec.core.rob.state ≠ .rollback)
    (hmis : s.dec.core.mispredicts = true) (b : VAddr) :
    Trail Fetched.addr Fetched.next (s.next i).inWindow b := by
  obtain ⟨r, hr⟩ := Core.mispredicts_eq_true.mp hmis
  have hpend := Core.mem_pending_of_brReg hr
  obtain ⟨l, hl⟩ := ho.youngest_of_mispredicted (i := s.coreInput i) hstate hr
  obtain ⟨old, young, hsplit, -⟩ := ho.window_split (i := s.coreInput i) hstate
  obtain ⟨a, htrail, -⟩ := h
  obtain ⟨m, htrail⟩ := htrail.exists_of_append
  rw [inWindow, if_neg hstate, hsplit, List.map_append, List.map_append] at htrail
  obtain ⟨m, htrail⟩ := htrail.exists_of_append
  obtain ⟨a, hleads⟩ := htrail.of_append
  have hleft := leads_left ho hleads
  rw [hl, List.map_append, List.map_append] at hleft
  refine ⟨a, ?_⟩
  rw [inWindow_next hstate' ho, Core.newUops_of_kill (.inl hmis), List.map_nil,
    List.append_nil, hl, List.map_append, List.map_append]
  refine hleft.retarget ?_
  rintro ⟨-, hbr⟩
  obtain ⟨b', hb', heq⟩ := hbr (ho.allocates r hpend)
  rw [RobUop.resolve_seq] at heq
  obtain ⟨b, hb, -, hseq⟩ :=
    Core.Ordered.seq_of_brs_next hb' (heq ▸ ho.lt_count r (ho.mem_window hpend))
  exact ho.seq_ne_of_brs hr hb (hseq.trans heq)

theorem OnPath.next_of_kill (h : s.OnPath) (ho : s.dec.core.Ordered) (hsret : s.SretLast)
    (hkill : s.dec.fetchbufferKill = true) : (s.next i).OnPath := by
  refine ⟨(s.next i).front.nextAddr, ?_, fun _ => rfl⟩
  rw [waiting_next_of_kill hkill, List.append_nil]
  by_cases hroll : s.dec.core.rob.state = .rollback ∨ (s.next i).dec.core.rob.state = .rollback
  · rw [inWindow_next_of_rollback ho hroll]
    exact .nil
  obtain ⟨hstate, hstate'⟩ := not_or.mp hroll
  have hnil : s.dec.core.rob.window = [] → s.dec.core.newUops (s.coreInput i) = [] →
      Trail Fetched.addr Fetched.next (s.next i).inWindow (s.next i).front.nextAddr := by
    intro hwin hnew
    rw [inWindow_next hstate' ho, hnew, Core.left, hwin]
    exact .nil
  rw [fetchbufferKill, Bool.or_eq_true, Bool.or_eq_true, Bool.or_eq_true] at hkill
  rcases hkill with ((hmis | hexc) | hflush) | hret
  · exact trail_of_mispredicts h ho hstate hstate' hmis _
  · exact absurd (Rob.nextState_of_exceptionThrown (Bool.and_eq_true_iff.mp hexc).1) hstate'
  · exact hnil ((ho.flushed hflush).resolve_left hstate) (Core.newUops_of_kill (.inr (.inl hflush)))
  · obtain ⟨hwin, hnormal⟩ := hsret hret
    exact hnil hwin (Core.newUops_of_kill (.inr (.inr hnormal)))

section

variable (h : s.OnPath) (hfront : Front s.front) (hquiet : s.stale = true → s.Quiet)
  (hdec : DecodeStage.DecodeInv s.dec dlog)
include h hfront hquiet hdec

theorem OnPath.entered (hkill : s.dec.fetchbufferKill = false) :
    ∃ a, Trail Fetched.addr Fetched.next (s.inWindow ++
        ((s.dec.dispatched (s.decInput i)).map (fun f => (f, f.xcptIf = false)) ++
          (s.next i).waiting)) a ∧
      (s.redirect i = none → a = (s.next i).front.nextAddr) := by
  obtain ⟨a, htrail, hend⟩ := h
  have hfresh : s.stale = false := by
    rw [← Bool.not_eq_true]
    intro hstale
    rw [fetchbufferKill_of_stale hstale] at hkill
    cases hkill
  obtain rfl := hend hfresh
  obtain ⟨b, hleads, hb⟩ := leads_entered (i := i) hfront hquiet
  refine ⟨b, ?_, hb⟩
  rw [← waiting_append_entered hdec hkill, ← List.append_assoc]
  exact htrail.append hleads

theorem OnPath.next_of_stays
    (ho : s.dec.core.Ordered) (hkill : s.dec.fetchbufferKill = false) : (s.next i).OnPath := by
  obtain ⟨a, htrail, ha⟩ := h.entered (i := i) hfront hquiet hdec hkill
  refine ⟨a, ?_, fun hfresh => ha ?_⟩
  · by_cases hroll : s.dec.core.rob.state = .rollback ∨ (s.next i).dec.core.rob.state = .rollback
    · rw [inWindow_next_of_rollback ho hroll]
      exact htrail.of_append.of_append
    · obtain ⟨hstate, hstate'⟩ := not_or.mp hroll
      have hmis : s.dec.core.mispredicts = false := by
        rw [fetchbufferKill, Bool.or_eq_false_iff, Bool.or_eq_false_iff,
          Bool.or_eq_false_iff] at hkill
        exact hkill.1.1.1
      obtain ⟨old, young, hsplit, hyoung⟩ := ho.window_split (i := s.coreInput i) hstate
      rw [inWindow, if_neg hstate, hsplit, hyoung hmis, List.append_nil, List.map_append,
        List.append_assoc] at htrail
      obtain ⟨b, hleads⟩ := htrail.of_append
      obtain ⟨m, hleft, hrest⟩ := leads_append.mp hleads
      obtain ⟨m', hnew, hwait⟩ := leads_append.mp hrest
      rw [inWindow_next hstate' ho, List.append_assoc]
      exact ⟨b, leads_append.mpr ⟨m, leads_left ho hleft,
        leads_append.mpr ⟨m', leads_newUops hnew, hwait⟩⟩⟩
  · rw [stale_next] at hfresh
    simpa using hfresh

/-- **A cycle keeps the path.** -/
theorem OnPath.next (ho : s.dec.core.Ordered) (hsret : s.SretLast) :
    (s.next i).OnPath := by
  cases hkill : s.dec.fetchbufferKill with
  | true => exact h.next_of_kill ho hsret hkill
  | false => exact h.next_of_stays hfront hquiet hdec ho hkill

end

/-- **The log leads to where the front end is.** -/
theorem leads_nextLog (hfront : Front s.front) (hquiet : s.stale = true → s.Quiet) {log : PathLog}
    (h : Leads Fetched.addr Fetched.next log.start (log.path.map fun f => (f, f.xcptIf = false))
      s.front.nextAddr) :
    Leads Fetched.addr Fetched.next (s.nextLog i log).start
      ((s.nextLog i log).path.map fun f => (f, f.xcptIf = false)) (s.next i).front.nextAddr := by
  rw [nextLog]
  cases hred : s.redirect i with
  | some pc => exact (nextAddr_of_redirect hred).1.symm
  | none =>
    obtain ⟨a, hleads, ha⟩ := leads_entered (i := i) hfront hquiet
    rw [List.map_append]
    exact leads_append.mpr ⟨_, h, ha hred ▸ hleads⟩

end PredictStage

end RiscvSoc
