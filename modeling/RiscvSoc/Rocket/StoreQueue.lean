import Mathlib.Algebra.BigOperators.Group.Finset.Basic
import Mathlib.Algebra.Order.BigOperators.Group.Finset
import Mathlib.Data.Fintype.Basic
import RiscvSoc.Rocket.MSHR

/-!
# Who owns a slot of the store data queue

A store that misses leaves its data in a slot of the store data queue and waits in the replay queue
of its `MSHR`, which remembers the slot. `sdq_val` says which slots are taken. Nothing checks that
the bits and the replay queues agree: a slot is taken when a request is accepted and given back when
a replay leaves, and each of the two is decided by a different set of signals.

The invariant counts. A slot is held once by the waiting stores if its bit is up and not at all
otherwise, so a lost release, a slot given out twice and a release of somebody else's slot would all
show.
-/

namespace RiscvSoc

namespace Rocket

variable {P : DCachePolicy} {c : DCacheConfig}

/-! ### One `MSHR` -/

namespace MSHR

variable {s : MSHR P c} {i : MSHRInput P c}

/-- The request at the port is taken by this register. -/
def accepts (s : MSHR P c) (i : MSHRInput P c) : Bool := (s.priFire i || s.secFire i) && s.rpqRdy

/-- The replay that leaves in this cycle. -/
def leaves (s : MSHR P c) (i : MSHRInput P c) : Option (Replay c) :=
  if s.rpqDeqReady i then s.rpq.head? else none

/-- The entry an accepted request becomes. -/
def entry (i : MSHRInput P c) : Replay c := { i.reqBits with sdqId := i.reqSdqId }

variable {r : Replay c} (p : Replay c → Bool)

theorem mem_rpqEnq : r ∈ s.rpqEnq i ↔ s.accepts i = true ∧
    i.reqBits.cmd.isPrefetch = false ∧ r = entry i := by
  rw [rpqEnq, accepts, entry]
  cases s.priFire i || s.secFire i <;> cases i.reqBits.cmd.isPrefetch <;> cases s.rpqRdy <;> simp

theorem countP_rpqEnq : (s.rpqEnq i).countP p =
    if s.accepts i && !i.reqBits.cmd.isPrefetch && p (entry i) then 1 else 0 := by
  rw [rpqEnq, accepts, entry]
  cases s.priFire i || s.secFire i <;> cases i.reqBits.cmd.isPrefetch <;> cases s.rpqRdy <;>
    simp [List.countP_cons]

theorem leaves_append_rpq_next :
    (s.leaves i).toList ++ (s.next i).rpq = s.rpq ++ s.rpqEnq i := by
  show _ ++ ((if s.rpqDeqReady i then s.rpq.tail else s.rpq) ++ s.rpqEnq i) = _
  rw [leaves]
  cases s.rpqDeqReady i with
  | false => rfl
  | true => cases s.rpq <;> rfl

theorem countP_rpq_next :
    (s.next i).rpq.countP p + (s.leaves i).toList.countP p =
      s.rpq.countP p + (s.rpqEnq i).countP p := by
  rw [add_comm, ← List.countP_append, leaves_append_rpq_next, List.countP_append]

theorem mem_rpq_next (h : r ∈ (s.next i).rpq) : r ∈ s.rpq ∨ r ∈ s.rpqEnq i := by
  have hmem : r ∈ (if s.rpqDeqReady i then s.rpq.tail else s.rpq) ++ s.rpqEnq i := h
  rcases List.mem_append.mp hmem with h | h
  · split at h
    · exact .inl (List.mem_of_mem_tail h)
    · exact .inl h
  · exact .inr h

theorem waits_or_leaves (hr : r ∈ s.rpq) :
    r ∈ (s.next i).rpq ∨ s.leaves i = some r := by
  show r ∈ (if s.rpqDeqReady i then s.rpq.tail else s.rpq) ++ s.rpqEnq i ∨ _
  rw [leaves]
  cases s.rpqDeqReady i with
  | false => exact .inl (List.mem_append_left _ hr)
  | true =>
    cases hrpq : s.rpq with
    | nil =>
      rw [hrpq] at hr
      cases hr
    | cons a l =>
      rw [hrpq] at hr
      rcases List.mem_cons.mp hr with rfl | hr
      · exact .inr rfl
      · exact .inl (List.mem_append_left _ hr)

theorem state_of_secRdy {bits : MSHRReq P} (h : s.secRdy bits = true) :
    s.idxMatch bits = true := by
  rw [secRdy, Bool.and_eq_true] at h
  rw [idxMatch, h.1, Bool.and_true, decide_eq_true_eq]
  intro hstate
  simp [hstate] at h

theorem startState_ne_invalid (i : MSHRInput P c) : startState i ≠ .sInvalid := by
  rw [startState]
  repeat' split
  all_goals exact MSHRState.noConfusion

/-- A busy register was busy before, or it has just taken a primary miss. -/
theorem busy_of_next (h : (s.next i).state ≠ .sInvalid) :
    s.priFire i = true ∨ s.priFire i = false ∧ s.state ≠ .sInvalid := by
  cases hfire : s.priFire i with
  | true => exact .inl rfl
  | false =>
    refine .inr ⟨rfl, fun hstate => h ?_⟩
    show s.nextState i = .sInvalid
    rw [priFire, reqPriRdy, decide_eq_true hstate, Bool.and_true] at hfire
    simp only [nextState, hstate]
    rw [hfire]
    rfl

theorem reqIdx_next :
    (s.next i).reqIdx = if s.priFire i then c.idx i.reqBits.addr else s.reqIdx := by
  show c.idx (if s.priFire i then i.reqBits else s.req).addr = _
  split <;> rfl

theorem rpq_next_of_idle (hidle : s.state = .sInvalid → s.rpq = [])
    (h : (s.next i).state = .sInvalid) : (s.next i).rpq = [] := by
  have hnext : s.nextState i = .sInvalid := h
  have hwas : (s.state = .sInvalid ∧ i.reqPriVal = false) ∨
      (s.state = .sDrainRpq ∧ s.rpq.isEmpty = true) := by
    cases hstate : s.state with
    | sInvalid =>
      refine .inl ⟨rfl, ?_⟩
      rw [← Bool.not_eq_true]
      intro hpri
      simp only [nextState, hstate, hpri, if_true] at hnext
      exact startState_ne_invalid i hnext
    | sDrainRpq =>
      refine .inr ⟨rfl, ?_⟩
      by_contra hne
      simp only [nextState, hstate, if_neg hne] at hnext
      cases hnext
    | sWbReq | sWbResp | sMetaClear | sRefillReq | sRefillResp | sMetaWriteReq | sMetaWriteResp =>
      simp only [nextState, hstate] at hnext
      revert hnext
      try split
      all_goals exact fun h => MSHRState.noConfusion h
  have hempty : s.rpq = [] := by
    rcases hwas with ⟨hstate, _⟩ | ⟨_, hempty⟩
    · exact hidle hstate
    · exact List.isEmpty_iff.mp hempty
  have hsec : s.secFire i = false := by
    rw [secFire, secRdy]
    rcases hwas with ⟨hstate, _⟩ | ⟨hstate, _⟩ <;> simp [hstate]
  have hpri : s.priFire i = false := by
    rw [priFire, reqPriRdy]
    rcases hwas with ⟨_, hval⟩ | ⟨hstate, _⟩
    · rw [hval, Bool.false_and]
    · simp [hstate]
  have henq : s.rpqEnq i = [] := by
    rw [rpqEnq, hpri, hsec]
    rfl
  show (if s.rpqDeqReady i then s.rpq.tail else s.rpq) ++ s.rpqEnq i = []
  rw [henq, hempty]
  split <;> rfl

end MSHR

/-! ### Accepting a request -/

namespace MSHRFile

variable {s : MSHRFile P c} {i : MSHRFileInput P}

/-- A waiting store holds slot `k`. -/
def holds (k : Fin c.nsdq) (r : Replay c) : Bool := r.cmd.isWrite && decide (r.sdqId = k)

/-- How many waiting stores hold slot `k`. -/
def held (s : MSHRFile P c) (k : Fin c.nsdq) : ℕ := ∑ j, (s.mshr j).rpq.countP (holds k)

/-- The invariant. -/
structure Owned (s : MSHRFile P c) : Prop where
  distinct : ∀ j j', (s.mshr j).state ≠ .sInvalid → (s.mshr j').state ≠ .sInvalid →
    (s.mshr j).reqIdx = (s.mshr j').reqIdx → j = j'
  idle : ∀ j, (s.mshr j).state = .sInvalid → (s.mshr j).rpq = []
  held : ∀ k, s.held k = if s.sdqVal k then 1 else 0
  data : ∀ j, ∀ r ∈ (s.mshr j).rpq, r.cmd.isWrite = true → s.sdq r.sdqId = r.data

theorem reqSecVal_eq (j : Fin c.nmshr) :
    (s.mshrInput i j).reqSecVal = (i.reqValid && s.sdqRdy && s.tagMatch i) := rfl

theorem priFire_eq (j : Fin c.nmshr) : (s.mshr j).priFire (s.mshrInput i j) =
    Arbiter.fires (fun j => (s.mshr j).reqPriRdy) (s.allocReady i) j := by
  rw [MSHR.priFire, Arbiter.fires, Bool.and_comm]
  rfl

theorem idxMatch_eq_true : s.idxMatch i = true ↔ ∃ j, (s.mshr j).idxMatch i.reqBits = true :=
  orR_eq_true

namespace Owned

variable (hs : s.Owned)
include hs

variable {j j' : Fin c.nmshr} {r : Replay c} (k : Fin c.nsdq)

theorem eq_of_idxMatch (hj : (s.mshr j).idxMatch i.reqBits = true)
    (hj' : (s.mshr j').idxMatch i.reqBits = true) : j = j' := by
  rw [MSHR.idxMatch, MSHR.sameIdx, Bool.and_eq_true, decide_eq_true_eq, decide_eq_true_eq] at hj hj'
  exact hs.distinct j j' hj.1 hj'.1 (hj.2.trans hj'.2.symm)

/-- **An accepted request enters exactly one replay queue**, and a refused one none. -/
theorem exists_accepts : (s.reqFire i = true → ∃ j, (s.mshr j).accepts (s.mshrInput i j) = true) ∧
    ∀ j, (s.mshr j).accepts (s.mshrInput i j) = true → s.reqFire i = true ∧
      ∀ j', (s.mshr j').accepts (s.mshrInput i j') = true → j' = j := by
  cases hidx : s.idxMatch i with
  | true =>
    -- a secondary miss: only the register of the same set answers
    have hpri : ∀ j, (s.mshr j).priFire (s.mshrInput i j) = false := by
      intro j
      have hready : s.allocReady i = false := by
        rw [allocReady, hidx, Bool.not_true, Bool.and_false]
      rw [priFire_eq, Arbiter.fires, Arbiter.inReady, hready, Bool.and_false, Bool.and_false]
    have haccepts : ∀ j, (s.mshr j).accepts (s.mshrInput i j) = true ↔
        (i.reqValid = true ∧ s.sdqRdy = true ∧ s.tagMatch i = true) ∧
          (s.mshr j).reqSecRdy i.reqBits = true := by
      intro j
      rw [MSHR.accepts, hpri, Bool.false_or, MSHR.secFire, reqSecVal_eq, MSHR.reqSecRdy]
      simp only [Bool.and_eq_true, and_assoc]
      rfl
    have hmatch : ∀ j, (s.mshr j).reqSecRdy i.reqBits = true →
        (s.mshr j).idxMatch i.reqBits = true := by
      intro j h
      exact MSHR.state_of_secRdy (Bool.and_eq_true_iff.mp h).1
    have hfire : s.reqFire i = true ↔ (i.reqValid = true ∧ s.sdqRdy = true ∧ s.tagMatch i = true) ∧
        ∃ j, (s.mshr j).reqSecRdy i.reqBits = true := by
      rw [reqFire, reqReady, hidx, if_pos rfl, secRdy]
      simp only [Bool.and_eq_true, orR_eq_true]
      tauto
    refine ⟨fun h => ?_, fun j hj => ⟨?_, fun j' hj' => ?_⟩⟩
    · obtain ⟨hgate, j, hj⟩ := hfire.mp h
      exact ⟨j, (haccepts j).mpr ⟨hgate, hj⟩⟩
    · obtain ⟨hgate, hj⟩ := (haccepts j).mp hj
      exact hfire.mpr ⟨hgate, j, hj⟩
    · exact hs.eq_of_idxMatch (hmatch j' ((haccepts j').mp hj').2) (hmatch j ((haccepts j).mp hj).2)
  | false =>
    -- a primary miss: the arbiter picks one idle register, whose queue is empty
    have hnomatch : ∀ j, (s.mshr j).idxMatch i.reqBits ≠ true := by
      intro j hj
      rw [idxMatch_eq_true.mpr ⟨j, hj⟩] at hidx
      cases hidx
    have haccepts : ∀ j, (s.mshr j).accepts (s.mshrInput i j) = true ↔
        Arbiter.fires (fun j => (s.mshr j).reqPriRdy) (s.allocReady i) j = true := by
      intro j
      have hsec : (s.mshr j).secFire (s.mshrInput i j) = false := by
        rw [← Bool.not_eq_true, MSHR.secFire, Bool.and_eq_true]
        exact fun h => hnomatch j (MSHR.state_of_secRdy h.2)
      rw [MSHR.accepts, hsec, Bool.or_false, priFire_eq, Bool.and_eq_true, and_iff_left_iff_imp]
      intro h
      have hidle : (s.mshr j).state = .sInvalid :=
        of_decide_eq_true (Bool.and_eq_true_iff.mp h).1
      rw [MSHR.rpqRdy, hs.idle j hidle]
      exact decide_eq_true c.nrpq_pos
    have hready : s.allocReady i = (i.reqValid && s.sdqRdy) := by
      rw [allocReady, hidx, Bool.not_false, Bool.and_true]
    refine ⟨fun h => ?_, fun j hj => ⟨?_, fun j' hj' => ?_⟩⟩
    · rw [reqFire, reqReady, hidx, if_neg (by simp)] at h
      simp only [Bool.and_eq_true] at h
      have halloc : s.allocReady i = true := by
        rw [hready, h.1, h.2.2]
        rfl
      obtain ⟨j, hj⟩ := Arbiter.exists_fires h.2.1 halloc
      exact ⟨j, (haccepts j).mpr hj⟩
    · have hj := (haccepts j).mp hj
      have hout := (Arbiter.fires_eq_true.mp hj).1
      have hany : s.priRdy = true := orR_eq_true.mpr ⟨j, (Bool.and_eq_true_iff.mp hj).1⟩
      rw [hready, Bool.and_eq_true] at hout
      rw [reqFire, reqReady, hidx, if_neg (by simp), hany, hout.1, hout.2]
      rfl
    · exact Arbiter.fires_inj ((haccepts j').mp hj') ((haccepts j).mp hj)

/-! ### Replaying a request -/

/-- A replay leaves the first queue that has one, if both ports behind it are ready. -/
theorem leaves_eq_some {j : Fin c.nmshr} :
    (s.mshr j).leaves (s.mshrInput i j) = some r ↔ i.replayReady = true ∧
      (s.mshrInput i j).metaReadReady = true ∧
      priorityEncoder (fun j => (s.mshr j).replayValid) = some j ∧
      (s.mshr j).rpq.head? = some r := by
  have hready : (s.mshrInput i j).replayReady =
      Arbiter.inReady (fun j => (s.mshr j).replayValid) i.replayReady j := rfl
  rw [MSHR.leaves, MSHR.rpqDeqReady]
  constructor
  · intro h
    split at h
    · rename_i hdeq
      rw [Bool.and_eq_true, Bool.or_eq_true, decide_eq_true_eq] at hdeq
      rcases hdeq with ⟨hmeta, hdrain | hidle⟩
      · rw [Bool.and_eq_true, decide_eq_true_eq] at hdrain
        have hvalid : (s.mshr j).replayValid = true := by
          rw [MSHR.replayValid, decide_eq_true hdrain.2, Bool.true_and, Bool.not_eq_true',
            ← Bool.not_eq_true, List.isEmpty_iff]
          rintro hnil
          rw [hnil] at h
          cases h
        have hfires : Arbiter.fires (fun j => (s.mshr j).replayValid) i.replayReady j = true :=
          Bool.and_eq_true_iff.mpr ⟨hvalid, hready ▸ hdrain.1⟩
        obtain ⟨hout, hfirst⟩ := Arbiter.fires_eq_true.mp hfires
        exact ⟨hout, hmeta, hfirst, h⟩
      · rw [hs.idle j hidle] at h
        cases h
    · cases h
  · rintro ⟨hout, hmeta, hfirst, h⟩
    have hfires := Arbiter.fires_eq_true.mpr ⟨hout, hfirst⟩
    obtain ⟨hvalid, hin⟩ := Bool.and_eq_true_iff.mp hfires
    have hdrain : (s.mshr j).state = .sDrainRpq :=
      of_decide_eq_true (Bool.and_eq_true_iff.mp hvalid).1
    rw [hmeta, hready, hin, decide_eq_true hdrain]
    exact h

/-- **A slot is given back by the store that leaves.** -/
theorem freeSdq_eq_some {k : Fin c.nsdq} : s.freeSdq i = some k ↔
    ∃ j r, (s.mshr j).leaves (s.mshrInput i j) = some r ∧ holds k r = true := by
  have hwrite : ∀ j (r : Replay c), ((s.mshr j).replayBits (s.mshrInput i j).metaReadReady r).cmd =
      if (s.mshrInput i j).metaReadReady then r.cmd else .nop := fun _ _ => rfl
  constructor
  · intro h
    rw [freeSdq] at h
    split at h
    · rename_i hout
      obtain ⟨⟨j, r'⟩, hfilter, rfl⟩ := Option.map_eq_some_iff.mp h
      obtain ⟨hreplay, hcmd⟩ := Option.filter_eq_some_iff.mp hfilter
      obtain ⟨j', hfirst, hhead⟩ := Option.bind_eq_some_iff.mp hreplay
      obtain ⟨r, hr, heq⟩ := Option.map_eq_some_iff.mp hhead
      cases heq
      rw [hwrite] at hcmd
      split at hcmd
      · rename_i hmeta
        refine ⟨j, r, hs.leaves_eq_some.mpr ⟨hout, hmeta, hfirst, hr⟩, ?_⟩
        exact Bool.and_eq_true_iff.mpr ⟨hcmd, decide_eq_true rfl⟩
      · cases hcmd
    · cases h
  · rintro ⟨j, r, hleaves, hholds⟩
    obtain ⟨hout, hmeta, hfirst, hhead⟩ := hs.leaves_eq_some.mp hleaves
    obtain ⟨hcmd, hk⟩ := Bool.and_eq_true_iff.mp hholds
    rw [freeSdq, if_pos hout, replay, hfirst, Option.bind_some, hhead, Option.map_some,
      Option.filter_some]
    dsimp only
    rw [hwrite, if_pos hmeta, if_pos hcmd]
    exact congrArg some (of_decide_eq_true hk)

theorem leaves_inj {r r' : Replay c} (h : (s.mshr j).leaves (s.mshrInput i j) = some r)
    (h' : (s.mshr j').leaves (s.mshrInput i j') = some r') : j = j' := by
  have hfirst := (hs.leaves_eq_some.mp h).2.2.1
  rw [(hs.leaves_eq_some.mp h').2.2.1] at hfirst
  exact (Option.some.inj hfirst).symm

/-! ### The count -/

theorem sum_leaves :
    (∑ j, ((s.mshr j).leaves (s.mshrInput i j)).toList.countP (holds k)) =
      if s.freeSdq i = some k then 1 else 0 := by
  by_cases hfree : s.freeSdq i = some k
  · obtain ⟨j, r, hleaves, hholds⟩ := hs.freeSdq_eq_some.mp hfree
    rw [if_pos hfree, Finset.sum_eq_single j]
    · rw [hleaves]
      simp [hholds]
    · intro j' _ hne
      cases hl : (s.mshr j').leaves (s.mshrInput i j') with
      | none => rfl
      | some r' => exact absurd (hs.leaves_inj hl hleaves) hne
    · exact fun h => absurd (Finset.mem_univ j) h
  · rw [if_neg hfree]
    refine Finset.sum_eq_zero fun j _ => ?_
    cases hl : (s.mshr j).leaves (s.mshrInput i j) with
    | none => rfl
    | some r =>
      have hno : holds k r = false := by
        rw [← Bool.not_eq_true]
        exact fun h => hfree (hs.freeSdq_eq_some.mpr ⟨j, r, hl, h⟩)
      simp [hno]

theorem sum_rpqEnq :
    (∑ j, ((s.mshr j).rpqEnq (s.mshrInput i j)).countP (holds k)) =
      if s.sdqEnq i && decide (k = s.sdqAllocId) then 1 else 0 := by
  obtain ⟨haccepted, honly⟩ := hs.exists_accepts (i := i)
  have hprefetch : i.reqBits.cmd.isWrite = true → i.reqBits.cmd.isPrefetch = false := by
    cases i.reqBits.cmd <;> decide
  have henq : ∀ j, ((s.mshr j).rpqEnq (s.mshrInput i j)).countP (holds k) =
      if (s.mshr j).accepts (s.mshrInput i j) = true ∧ i.reqBits.cmd.isWrite = true ∧
        k = s.sdqAllocId then 1 else 0 := by
    intro j
    rw [MSHR.countP_rpqEnq]
    refine if_congr ?_ rfl rfl
    show ((s.mshr j).accepts (s.mshrInput i j) && !i.reqBits.cmd.isPrefetch &&
      (i.reqBits.cmd.isWrite && decide (s.sdqAllocId = k))) = true ↔ _
    simp only [Bool.and_eq_true, Bool.not_eq_true', decide_eq_true_eq]
    constructor
    · rintro ⟨⟨haccept, _⟩, hwrite, heq⟩
      exact ⟨haccept, hwrite, heq.symm⟩
    · rintro ⟨haccept, hwrite, heq⟩
      exact ⟨⟨haccept, hprefetch hwrite⟩, hwrite, heq.symm⟩
  simp only [henq]
  by_cases hslot : i.reqBits.cmd.isWrite = true ∧ k = s.sdqAllocId
  · by_cases hfire : s.reqFire i = true
    · obtain ⟨j, hj⟩ := haccepted hfire
      rw [Finset.sum_eq_single j, if_pos ⟨hj, hslot⟩, sdqEnq, hfire, hslot.1,
        decide_eq_true hslot.2]
      · rfl
      · exact fun j' _ hne => if_neg fun h => hne ((honly j hj).2 j' h.1)
      · exact fun h => absurd (Finset.mem_univ j) h
    · have hno : ∀ j ∈ Finset.univ, (if (s.mshr j).accepts (s.mshrInput i j) = true ∧
          i.reqBits.cmd.isWrite = true ∧ k = s.sdqAllocId then 1 else 0) = 0 :=
        fun j _ => if_neg fun h => hfire (honly j h.1).1
      rw [Bool.not_eq_true] at hfire
      rw [Finset.sum_eq_zero hno, sdqEnq, hfire]
      rfl
  · have hno : ¬(s.sdqEnq i && decide (k = s.sdqAllocId)) = true := by
      rw [sdqEnq, Bool.and_eq_true, Bool.and_eq_true, decide_eq_true_eq]
      exact fun h => hslot ⟨h.1.2, h.2⟩
    rw [if_neg hno]
    exact Finset.sum_eq_zero fun j _ => if_neg fun h => hslot h.2

/-- **The books of one slot**: held before and given out, against held after and given back. -/
theorem held_next : (s.next i).held k + (if s.freeSdq i = some k then 1 else 0) =
    s.held k + if s.sdqEnq i && decide (k = s.sdqAllocId) then 1 else 0 := by
  rw [← hs.sum_leaves, ← hs.sum_rpqEnq, MSHRFile.held, MSHRFile.held, ← Finset.sum_add_distrib,
    ← Finset.sum_add_distrib]
  exact Finset.sum_congr rfl fun j _ => MSHR.countP_rpq_next (holds k)

omit hs in
theorem sdqVal_alloc (h : s.sdqEnq i = true) : s.sdqVal s.sdqAllocId = false := by
  have hrdy : s.sdqRdy = true := by
    rw [sdqEnq, reqFire, reqReady] at h
    simp only [Bool.and_eq_true] at h
    exact h.1.2.2
  rw [sdqRdy, Bool.not_eq_true', decide_eq_false_iff_not, not_forall] at hrdy
  obtain ⟨k, hk⟩ := hrdy
  rw [sdqAllocId]
  cases henc : priorityEncoder fun k => !s.sdqVal k with
  | none =>
    have := priorityEncoder_eq_none.mp henc k
    rw [Bool.not_eq_false'] at this
    exact absurd this hk
  | some k' => simpa using priorityEncoder_some henc

theorem sdqVal_of_mem {j : Fin c.nmshr} (hr : r ∈ (s.mshr j).rpq)
    (hwrite : r.cmd.isWrite = true) : s.sdqVal r.sdqId = true := by
  have hholds : holds r.sdqId r = true := by
    rw [holds, hwrite, decide_eq_true rfl]
    rfl
  have hpos : 0 < s.held r.sdqId := by
    refine Nat.lt_of_lt_of_le (List.countP_pos_iff.mpr ⟨r, hr, hholds⟩) ?_
    exact Finset.single_le_sum (f := fun j => (s.mshr j).rpq.countP (holds r.sdqId))
      (fun _ _ => Nat.zero_le _) (Finset.mem_univ j)
  rw [hs.held] at hpos
  by_contra hval
  rw [if_neg hval] at hpos
  exact hpos.false

theorem sdqVal_free {k : Fin c.nsdq} (h : s.freeSdq i = some k) : s.sdqVal k = true := by
  obtain ⟨j, r, hleaves, hholds⟩ := hs.freeSdq_eq_some.mp h
  obtain ⟨_, _, _, hhead⟩ := hs.leaves_eq_some.mp hleaves
  obtain ⟨hwrite, hk⟩ := Bool.and_eq_true_iff.mp hholds
  rw [← of_decide_eq_true hk]
  exact hs.sdqVal_of_mem (List.mem_of_mem_head? hhead) hwrite

/-! ### A cycle keeps the invariant -/

theorem next_held :
    (s.next i).held k = if (s.next i).sdqVal k then 1 else 0 := by
  have hbooks := hs.held_next (i := i) k
  have hval : (s.next i).sdqVal k = (s.sdqVal k && !decide (s.freeSdq i = some k) ||
      s.sdqEnq i && decide (k = s.sdqAllocId)) := rfl
  rw [hs.held] at hbooks
  rw [hval]
  by_cases hfree : s.freeSdq i = some k
  · have htaken := hs.sdqVal_free hfree
    have halloc : (s.sdqEnq i && decide (k = s.sdqAllocId)) = false := by
      rw [← Bool.not_eq_true, Bool.and_eq_true, decide_eq_true_eq]
      rintro ⟨henq, rfl⟩
      rw [sdqVal_alloc henq] at htaken
      cases htaken
    rw [if_pos hfree, htaken, if_pos rfl, halloc] at hbooks
    rw [htaken, decide_eq_true hfree, halloc]
    simpa using hbooks
  · rw [if_neg hfree] at hbooks
    rw [decide_eq_false hfree]
    cases halloc : s.sdqEnq i && decide (k = s.sdqAllocId) with
    | false =>
      rw [halloc] at hbooks
      simpa using hbooks
    | true =>
      obtain ⟨henq, hk⟩ := Bool.and_eq_true_iff.mp halloc
      have hempty := sdqVal_alloc henq
      rw [← of_decide_eq_true hk] at hempty
      rw [halloc, hempty] at hbooks
      simpa [hempty] using hbooks

omit hs in
theorem sdq_next_of_held {k : Fin c.nsdq} (h : s.sdqVal k = true) :
    (s.next i).sdq k = s.sdq k := by
  show (if s.sdqEnq i then Function.update s.sdq s.sdqAllocId i.reqBits.data else s.sdq) k = _
  split
  · rename_i henq
    refine Function.update_of_ne ?_ _ _
    rintro rfl
    rw [sdqVal_alloc henq] at h
    cases h
  · rfl

theorem next_data : ∀ j, ∀ r ∈ ((s.next i).mshr j).rpq, r.cmd.isWrite = true →
    (s.next i).sdq r.sdqId = r.data := by
  intro j r hr hwrite
  rcases MSHR.mem_rpq_next hr with hr | hr
  · rw [sdq_next_of_held (hs.sdqVal_of_mem hr hwrite)]
    exact hs.data j r hr hwrite
  · obtain ⟨haccept, _, rfl⟩ := MSHR.mem_rpqEnq.mp hr
    have henq : s.sdqEnq i = true :=
      Bool.and_eq_true_iff.mpr ⟨((hs.exists_accepts (i := i)).2 j haccept).1, hwrite⟩
    show (if s.sdqEnq i then Function.update s.sdq s.sdqAllocId i.reqBits.data else s.sdq)
      s.sdqAllocId = i.reqBits.data
    rw [if_pos henq, Function.update_self]

theorem next_distinct : ∀ j j', ((s.next i).mshr j).state ≠ .sInvalid →
    ((s.next i).mshr j').state ≠ .sInvalid →
    ((s.next i).mshr j).reqIdx = ((s.next i).mshr j').reqIdx → j = j' := by
  have hnew : ∀ j j', (s.mshr j).priFire (s.mshrInput i j) = true → (s.mshr j').state ≠ .sInvalid →
      (s.mshr j').reqIdx ≠ c.idx i.reqBits.addr := by
    intro j j' hpri hbusy heq
    rw [priFire_eq] at hpri
    have hready := (Arbiter.fires_eq_true.mp hpri).1
    have hidx : s.idxMatch i = true := by
      refine idxMatch_eq_true.mpr ⟨j', ?_⟩
      rw [MSHR.idxMatch, MSHR.sameIdx, decide_eq_true hbusy, decide_eq_true heq]
      rfl
    rw [allocReady, hidx, Bool.not_true, Bool.and_false] at hready
    cases hready
  intro j j' hj hj' heq
  rw [show ((s.next i).mshr j).reqIdx = _ from MSHR.reqIdx_next,
    show ((s.next i).mshr j').reqIdx = _ from MSHR.reqIdx_next] at heq
  rcases MSHR.busy_of_next hj with hpri | ⟨hno, hbusy⟩
  · rcases MSHR.busy_of_next hj' with hpri' | ⟨hno', hbusy'⟩
    · rw [priFire_eq] at hpri hpri'
      exact Arbiter.fires_inj hpri hpri'
    · rw [hpri, hno', if_pos rfl, if_neg (by simp)] at heq
      exact absurd heq.symm (hnew j j' hpri hbusy')
  · rcases MSHR.busy_of_next hj' with hpri' | ⟨hno', hbusy'⟩
    · rw [hpri', hno, if_pos rfl, if_neg (by simp)] at heq
      exact absurd heq (hnew j' j hpri' hbusy)
    · rw [hno, hno', if_neg (by simp), if_neg (by simp)] at heq
      exact hs.distinct j j' hbusy hbusy' heq

/-- **One cycle keeps the invariant.** -/
theorem next (i : MSHRFileInput P) : (s.next i).Owned where
  distinct := hs.next_distinct
  idle j := MSHR.rpq_next_of_idle (hs.idle j)
  held := hs.next_held
  data := hs.next_data

end Owned

theorem IsReset.owned (h : s.IsReset) : s.Owned where
  distinct j _ hj := absurd (h.mshr j).state hj
  idle j _ := (h.mshr j).rpq
  held k := by
    rw [h.sdqVal, if_neg (by simp)]
    refine Finset.sum_eq_zero fun j _ => ?_
    rw [(h.mshr j).rpq]
    rfl
  data j r hr := by
    rw [(h.mshr j).rpq] at hr
    cases hr

theorem reachable_owned (h : (machine P c).Reachable s) : s.Owned := by
  refine Machine.invariant (I := Owned) (fun _ => IsReset.owned) ?_ s h
  rintro s i _ _ hs rfl
  exact hs.next i

/-- **A slot belongs to one store.** In every reachable state a slot is marked exactly if one
waiting store holds it, no two hold the same, and it contains that store's data. A store that is
accepted gets a free slot. A marked slot stays marked and unmodified unless the store that holds it
leaves; a store that leaves frees its own slot, and in the next cycle the port shows its data. -/
theorem sdq_ownership (P : DCachePolicy) (c : DCacheConfig) :
    (∀ s, (machine P c).Reachable s →
      (∀ k, s.held k = if s.sdqVal k then 1 else 0) ∧
      ∀ j, ∀ r ∈ (s.mshr j).rpq, r.cmd.isWrite = true →
        s.sdqVal r.sdqId = true ∧ s.sdq r.sdqId = r.data) ∧
    ∀ s i, (machine P c).Reachable s →
      (s.sdqEnq i = true → s.sdqVal s.sdqAllocId = false ∧ (s.next i).sdqVal s.sdqAllocId = true ∧
        ∃ j, MSHR.entry (s.mshrInput i j) ∈ ((s.next i).mshr j).rpq) ∧
      (∀ k, s.sdqVal k = true → s.freeSdq i ≠ some k →
        (s.next i).sdqVal k = true ∧ (s.next i).sdq k = s.sdq k) ∧
      (∀ k, s.freeSdq i = some k ↔
        ∃ j r, (s.mshr j).leaves (s.mshrInput i j) = some r ∧ holds k r = true) ∧
      (∀ j, ∀ r ∈ (s.mshr j).rpq,
        r ∈ ((s.next i).mshr j).rpq ∨ (s.mshr j).leaves (s.mshrInput i j) = some r) ∧
      ∀ j r, (s.mshr j).leaves (s.mshrInput i j) = some r → r.cmd.isWrite = true →
        (s.next i).sdqVal r.sdqId = false ∧ (s.next i).replayData = r.data := by
  refine ⟨fun s h => ?_, fun s i h => ?_⟩
  · have hs := reachable_owned h
    exact ⟨hs.held, fun j r hr hwrite => ⟨hs.sdqVal_of_mem hr hwrite, hs.data j r hr hwrite⟩⟩
  have hs := reachable_owned h
  refine ⟨fun henq => ⟨Owned.sdqVal_alloc henq, ?_, ?_⟩, fun k hval hfree => ⟨?_, ?_⟩,
    fun k => hs.freeSdq_eq_some, fun j r hr => MSHR.waits_or_leaves hr,
    fun j r hleaves hwrite => ?_⟩
  · show (s.sdqVal _ && _ || s.sdqEnq i && decide (s.sdqAllocId = s.sdqAllocId)) = true
    rw [henq, decide_eq_true rfl, Bool.true_and, Bool.or_true]
  · obtain ⟨hfire, hwrite⟩ := Bool.and_eq_true_iff.mp henq
    obtain ⟨j, hj⟩ := (hs.exists_accepts (i := i)).1 hfire
    have hprefetch : i.reqBits.cmd.isPrefetch = false := by
      revert hwrite
      cases i.reqBits.cmd <;> decide
    exact ⟨j, List.mem_append_right _ (MSHR.mem_rpqEnq.mpr ⟨hj, hprefetch, rfl⟩)⟩
  · show (s.sdqVal k && !decide (s.freeSdq i = some k) || _) = true
    rw [hval, decide_eq_false hfree]
    rfl
  · exact Owned.sdq_next_of_held hval
  · have hholds : holds r.sdqId r = true := by
      rw [holds, hwrite, decide_eq_true rfl]
      rfl
    have hfree : s.freeSdq i = some r.sdqId := hs.freeSdq_eq_some.mpr ⟨j, r, hleaves, hholds⟩
    have htaken := hs.sdqVal_free hfree
    have hmem := List.mem_of_mem_head? (hs.leaves_eq_some.mp hleaves).2.2.2
    constructor
    · have halloc : (s.sdqEnq i && decide (r.sdqId = s.sdqAllocId)) = false := by
        rw [← Bool.not_eq_true, Bool.and_eq_true, decide_eq_true_eq]
        rintro ⟨henq, heq⟩
        rw [heq, Owned.sdqVal_alloc henq] at htaken
        cases htaken
      show (s.sdqVal r.sdqId && !decide (s.freeSdq i = some r.sdqId) || _) = false
      rw [decide_eq_true hfree, halloc, Bool.not_true, Bool.and_false]
      rfl
    · show (s.next i).sdq ((s.freeSdq i).getD s.replaySdqId) = r.data
      rw [hfree, Option.getD_some, Owned.sdq_next_of_held htaken]
      exact hs.data j r hmem hwrite

end MSHRFile

end Rocket

end RiscvSoc
