import RiscvSoc.Boom.CoreStep
import RiscvSoc.Lib.Queue

/-!
# From the fetch buffer to dispatch

The decode stage of `boom/src/main/scala/dpath.scala` in front of the core of `Core`: `FetchBuffer`,
`FetchSerializerNtoM`, which passes bundles through when a bundle is as wide as the decode stage,
and `dec_finished_mask`.

A bundle stays at the head of the fetch buffer until none of its slots stalls. What was dispatched
of it in earlier cycles is in the mask, which is cleared when the bundle goes, or when the fetch
buffer is. A slot that stalls stalls the slots after it, so the slots in the mask come before the
others (`DecodeInv.inOrder`); without that, the bundle could be finished out of order.

What a bundle says about one instruction is a type `α`. It is decoded again in each cycle, by a
decoder that also looks at the status register.
-/

namespace RiscvSoc

variable {c : BOOMConf} {α : Type} {n : ℕ}

/-! ### Lists in order -/

theorem filter_eq_append_of_pairwise {β : Type} {p q : β → Bool} {l : List β}
    (hsub : ∀ x ∈ l, q x = true → p x = true)
    (h : l.Pairwise fun x y => p x = true → q y = true → q x = true) :
    l.filter p = l.filter q ++ l.filter fun x => p x && !q x := by
  induction l with
  | nil => rfl
  | cons x l ih =>
    obtain ⟨hx, hl⟩ := List.pairwise_cons.mp h
    have hrest := ih (fun y hy => hsub y (List.mem_cons_of_mem x hy)) hl
    cases hq : q x with
    | true =>
      have hp := hsub x (List.mem_cons_self ..) hq
      rw [List.filter_cons_of_pos hp, List.filter_cons_of_pos hq,
        List.filter_cons_of_neg (by rw [hp, hq]; nofun), hrest, List.cons_append]
    | false =>
      have hq' : ¬q x = true := by rw [hq]; nofun
      rw [List.filter_cons_of_neg hq']
      cases hp : p x with
      | true =>
        -- the rest of the list has nothing of that part
        have hnone : l.filter q = [] := by
          refine List.filter_eq_nil_iff.mpr fun y hy hqy => hq' (hx y hy hp hqy)
        rw [hnone, List.nil_append] at hrest
        rw [List.filter_cons_of_pos hp, List.filter_cons_of_pos (by rw [hp, hq]; rfl), hnone, hrest,
          List.nil_append]
      | false =>
        rw [List.filter_cons_of_neg (by rw [hp]; nofun),
          List.filter_cons_of_neg (by rw [hp]; nofun), hrest]

/-! ### Bundles -/

/-- `FetchBundle`. -/
structure FetchBundle (c : BOOMConf) (α : Type) where
  mask : Bank c → Bool
  insts : Bank c → α

namespace FetchBundle

variable (b : FetchBundle c α)

/-- The slots that hold an instruction. -/
def slots : List (Bank c) := (List.finRange c.decodeWidth).filter b.mask

/-- The instructions of the bundle. -/
def valid : List α := b.slots.map b.insts

/-- The instructions of the bundle that are in a mask. -/
def done (mask : Bank c → Bool) : List α := (b.slots.filter mask).map b.insts

/-- The instructions of the bundle that are not in a mask. -/
def undone (mask : Bank c → Bool) : List α := (b.slots.filter fun w => !mask w).map b.insts

variable {b}

theorem pairwise_slots : b.slots.Pairwise (· < ·) :=
  (List.pairwise_lt_finRange c.decodeWidth).filter _

theorem mem_slots {w : Bank c} : w ∈ b.slots ↔ b.mask w = true := by
  simp [slots]

theorem undone_none : (b.undone fun _ => false) = b.valid :=
  congrArg (List.map b.insts) (List.filter_eq_self.mpr fun _ _ => rfl)

theorem done_none : (b.done fun _ => false) = [] := by
  rw [done, List.filter_eq_nil_iff.mpr fun _ _ => Bool.false_ne_true]
  rfl

end FetchBundle

/-- The instructions in a queue of bundles, without those of its head that are in a mask. -/
def undoneIn (mask : Bank c → Bool) : List (FetchBundle c α) → List α
  | [] => []
  | b :: bs => b.undone mask ++ bs.flatMap FetchBundle.valid

theorem undoneIn_none (bs : List (FetchBundle c α)) :
    undoneIn (fun _ => false) bs = bs.flatMap FetchBundle.valid := by
  cases bs with
  | nil => rfl
  | cons b bs => rw [undoneIn, FetchBundle.undone_none]; rfl

/-! ### The decode stage -/

/-- What the outside drives in one cycle. -/
structure DecodeInput (c : BOOMConf) (α : Type) where
  /-- `io.imem.resp`. -/
  imemResp : Option (FetchBundle c α)
  /-- The decoders. -/
  decode : α → DecInst c
  /-- The rest of the core's inputs, and what the decoders show when there is no bundle. -/
  core : CoreInput c

structure DecodeStage (c : BOOMConf) (α : Type) (n : ℕ) where
  core : Core c
  fetchBuffer : Queue (FetchBundle c α) n
  /-- `dec_finished_mask`. -/
  finishedMask : Bank c → Bool
  /-- `Reg(next=com_sret)`. -/
  sretCommitted : Bool

namespace DecodeStage

variable (s : DecodeStage c α n) (i : DecodeInput c α)

/-- `fetchbuffer_kill`. -/
def fetchbufferKill : Bool :=
  s.core.mispredicts || s.core.rob.comException || s.core.rob.flushPipeline || s.sretCommitted

/-- `FetchBuffer.io.enq`. -/
def enq : Option (FetchBundle c α) := if s.fetchbufferKill then none else i.imemResp

/-- `dec_fbundle` under `fetched_inst_valid`; it does not look at `io.deq.ready`. -/
def fbundle : Option (FetchBundle c α) := s.fetchBuffer.deq true ⟨s.enq i, false⟩

/-- `dec_valids`. -/
def decValids (w : Bank c) : Bool := (s.fbundle i).any fun b => b.mask w && !s.finishedMask w

def decInsts (w : Bank c) : DecInst c :=
  match s.fbundle i with
  | some b => i.decode (b.insts w)
  | none => i.core.decInsts w

def coreInput : CoreInput c := { i.core with decValids := s.decValids i, decInsts := s.decInsts i }

/-- `dec_rdy`. -/
def decRdy : Bool := !(s.core.turn (s.coreInput i) c.decodeWidth).stallNextInst

def queueInput : QueueInput (FetchBundle c α) := ⟨s.enq i, s.decRdy i⟩

/-- The instructions that are dispatched. -/
def dispatched : List α :=
  match s.fbundle i with
  | some b => (s.core.disSlots (s.coreInput i)).map b.insts
  | none => []

/-! ### What is dispatched -/

variable {s i} {b : FetchBundle c α}

theorem decValids_eq (hb : s.fbundle i = some b) (w : Bank c) :
    s.decValids i w = (b.mask w && !s.finishedMask w) := by
  rw [decValids, hb]
  rfl

variable {w : Bank c}

theorem disMask_of_stallMe (hvalid : s.decValids i w = true)
    (hstall : s.core.stallMe (s.coreInput i) (s.core.turn (s.coreInput i) w) w = false) :
    s.core.disMask (s.coreInput i) w = true := by
  rw [Core.disMask_eq_willFire, Core.willFire, Core.goesAhead, hstall, Core.kill]
  simp only [Core.stallMe, Bool.or_eq_false_iff, Bool.not_eq_false'] at hstall
  obtain ⟨⟨⟨⟨⟨⟨⟨⟨⟨hproceed, -⟩, -⟩, -⟩, -⟩, -⟩, hmis⟩, hflush⟩, -⟩, -⟩ := hstall
  rw [hproceed, hmis, hflush, show (s.coreInput i).decValids w = true from hvalid]
  rfl

/-- `dec_mask` is `dis_mask`. -/
theorem decMask_eq_disMask : s.core.decMask (s.coreInput i) = s.core.disMask (s.coreInput i) := by
  funext w
  rw [Bool.eq_iff_iff]
  constructor
  · intro h
    rw [Core.decMask, Core.goesAhead, Bool.and_eq_true, Bool.not_eq_true'] at h
    exact disMask_of_stallMe h.1 h.2
  · intro h
    rw [Core.disMask_eq_willFire, Core.willFire, Bool.and_eq_true, Bool.and_eq_true] at h
    exact h.1.1

/-- If a slot does not have to wait for the slots before it, those are dispatched. -/
theorem disMask_of_noStall {k : ℕ} (hw : w < k) (hk : k ≤ c.decodeWidth)
    (hnext : (s.core.turn (s.coreInput i) k).stallNextInst = false)
    (hvalid : s.decValids i w = true) : s.core.disMask (s.coreInput i) w = true := by
  refine disMask_of_stallMe hvalid ?_
  by_contra hstall
  have hlater := Core.stallNextInst_mono (s := s.core) (i := s.coreInput i) (k := w + 1) hw hk (by
    rw [Core.turn_succ w.isLt]
    simp [show s.core.stallMe (s.coreInput i) _ w = true by simpa using hstall])
  rw [hnext] at hlater
  cases hlater

theorem disMask_of_lt {v w : Bank c} (hvw : v < w) (hvalid : s.decValids i v = true)
    (hw : s.core.disMask (s.coreInput i) w = true) : s.core.disMask (s.coreInput i) v = true :=
  disMask_of_noStall hvw w.isLt.le (Core.goes_of_disMask hw).noStall hvalid

theorem disMask_of_decRdy (h : s.decRdy i = true) (hvalid : s.decValids i w = true) :
    s.core.disMask (s.coreInput i) w = true := by
  rw [decRdy, Bool.not_eq_true'] at h
  exact disMask_of_noStall w.isLt le_rfl h hvalid

/-- The slots that are dispatched are slots of the bundle. -/
theorem disSlots_eq (hb : s.fbundle i = some b) :
    s.core.disSlots (s.coreInput i) = b.slots.filter (s.core.disMask (s.coreInput i)) := by
  rw [Core.disSlots, FetchBundle.slots, List.filter_filter]
  refine List.filter_congr fun w _ => ?_
  cases hdis : s.core.disMask (s.coreInput i) w with
  | false => rfl
  | true =>
    have hvalid : s.decValids i w = true := (Core.goes_of_disMask hdis).valid
    rw [decValids_eq hb, Bool.and_eq_true] at hvalid
    rw [hvalid.1]
    rfl

theorem disSlots_of_none (hb : s.fbundle i = none) : s.core.disSlots (s.coreInput i) = [] := by
  refine List.filter_eq_nil_iff.mpr fun w _ hdis => ?_
  have hvalid : s.decValids i w = true := (Core.goes_of_disMask hdis).valid
  rw [decValids, hb] at hvalid
  cases hvalid

section

variable (hb : s.fbundle i = some b)
include hb

theorem undone_eq : b.undone s.finishedMask = s.dispatched i ++
    b.undone fun w => s.finishedMask w || s.core.disMask (s.coreInput i) w := by
  rw [dispatched, hb, disSlots_eq hb]
  show _ = List.map _ _ ++ _
  rw [FetchBundle.undone, FetchBundle.undone, ← List.map_append]
  congr 1
  rw [filter_eq_append_of_pairwise (q := s.core.disMask (s.coreInput i))]
  · congr 1
    refine List.filter_congr fun w _ => ?_
    rw [Bool.not_or]
  · intro w _ hdis
    have hvalid : s.decValids i w = true := (Core.goes_of_disMask hdis).valid
    rw [decValids_eq hb, Bool.and_eq_true] at hvalid
    exact hvalid.2
  · refine FetchBundle.pairwise_slots.imp_of_mem fun hv _ hvw hfinished hdis => ?_
    refine disMask_of_lt hvw ?_ hdis
    rw [decValids_eq hb, FetchBundle.mem_slots.mp hv, hfinished]
    rfl

/-- When the bundle is taken, every instruction of it is dispatched. -/
theorem done_of_decRdy (h : s.decRdy i = true)
    (hw : w ∈ b.slots) : (s.finishedMask w || s.core.disMask (s.coreInput i) w) = true := by
  cases hfinished : s.finishedMask w with
  | true => rfl
  | false =>
    refine disMask_of_decRdy h ?_
    rw [decValids_eq hb, FetchBundle.mem_slots.mp hw, hfinished]
    rfl

theorem undone_of_decRdy (h : s.decRdy i = true) :
    (b.undone fun w => s.finishedMask w || s.core.disMask (s.coreInput i) w) = [] := by
  rw [FetchBundle.undone, List.filter_eq_nil_iff.mpr]
  · rfl
  · intro w hw
    rw [done_of_decRdy hb h hw]
    nofun

theorem valid_of_decRdy (h : s.decRdy i = true) :
    b.valid = b.done fun w => s.finishedMask w || s.core.disMask (s.coreInput i) w := by
  rw [FetchBundle.done, List.filter_eq_self.mpr fun w hw => done_of_decRdy hb h hw]
  rfl

/-- What was dispatched comes before what is dispatched now. -/
theorem done_eq
    (horder : ∀ v w, v < w → b.mask v = true → s.finishedMask w = true → s.finishedMask v = true) :
    (b.done fun w => s.finishedMask w || s.core.disMask (s.coreInput i) w) =
      b.done s.finishedMask ++ s.dispatched i := by
  rw [dispatched, hb, disSlots_eq hb]
  show _ = _ ++ List.map _ _
  rw [FetchBundle.done, FetchBundle.done, ← List.map_append]
  congr 1
  rw [filter_eq_append_of_pairwise (q := s.finishedMask)]
  · congr 1
    refine List.filter_congr fun w _ => ?_
    cases hdis : s.core.disMask (s.coreInput i) w with
    | false => cases s.finishedMask w <;> rfl
    | true =>
      have hvalid : s.decValids i w = true := (Core.goes_of_disMask hdis).valid
      rw [decValids_eq hb, Bool.and_eq_true] at hvalid
      rw [hvalid.2, Bool.or_true]
      rfl
  · intro w _ hfinished
    rw [hfinished]
    rfl
  · exact FetchBundle.pairwise_slots.imp_of_mem fun hv _ hvw _ hfinished =>
      horder _ _ hvw (FetchBundle.mem_slots.mp hv) hfinished

end

/-- **The oldest instruction waits only for what it needs.** Slots whose instruction is gone do not
hold it up. -/
theorem disMask_of_oldest (hvalid : s.decValids i w = true)
    (holdest : ∀ v, v < w → s.decValids i v = false)
    (hfree : ∀ v, v ≤ w →
      s.core.stallMe (s.coreInput i) ⟨s.core.branchMask, false⟩ v = false) :
    s.core.disMask (s.coreInput i) w = true := by
  have hturn : ∀ k, k ≤ w.val → s.core.turn (s.coreInput i) k = ⟨s.core.branchMask, false⟩ := by
    intro k hk
    induction k with
    | zero => rfl
    | succ k ih =>
      have hlt : k < c.decodeWidth := (Nat.lt_of_succ_le hk).trans w.isLt
      have hold : (s.coreInput i).decValids ⟨k, hlt⟩ = false := holdest ⟨k, hlt⟩ hk
      have hstall := hfree ⟨k, hlt⟩ (Nat.le_of_succ_le hk)
      rw [Core.turn_succ hlt, ih (Nat.le_of_succ_le hk), hstall, Core.isBranch, hold]
      rfl
  refine disMask_of_stallMe hvalid ?_
  rw [hturn w le_rfl]
  exact hfree w le_rfl

end DecodeStage

/-! ### The circuit -/

namespace DecodeStage

variable [NeZero n] (s : DecodeStage c α n) (i : DecodeInput c α)

/-- One cycle. -/
def next : DecodeStage c α n where
  core := s.core.next (s.coreInput i)
  fetchBuffer :=
    let q := s.fetchBuffer.next false true (s.queueInput i)
    if s.fetchbufferKill then { q with ptrs := ⟨0, 0, false⟩ } else q
  finishedMask :=
    if s.decRdy i || s.fetchbufferKill then fun _ => false
    else fun w => s.core.decMask (s.coreInput i) w || s.finishedMask w
  sretCommitted := orR fun w => s.core.rob.willCommit w && (s.core.rob.comUops w).isSret

/-- Reset: nothing says what the register behind `com_sret` holds. -/
structure IsReset : Prop where
  core : s.core.IsReset
  fetchBuffer : s.fetchBuffer.IsReset
  finishedMask : s.finishedMask = fun _ => false

/-- `FETCH_BUFFER_SZ`. -/
def fetchBufferSz : ℕ := 4

instance neZero_fetchBufferSz : NeZero fetchBufferSz := ⟨Nat.succ_ne_zero 3⟩

/-- The circuit after reset, with one bundle everywhere in the memory of the fetch buffer. -/
def reset (b : FetchBundle c α) : DecodeStage c α fetchBufferSz where
  core := Core.reset c
  fetchBuffer := ⟨⟨0, 0, false⟩, fun _ => b⟩
  finishedMask _ := false
  sretCommitted := false

theorem isReset_reset (b : FetchBundle c α) : (reset b).IsReset where
  core := Core.isReset_reset c
  fetchBuffer := rfl
  finishedMask := rfl

/-! ### History -/

/-- What becomes of an instruction. -/
inductive Fate where
  | dispatched
  | killed

structure DispatchLog (α : Type) where
  /-- The instructions that entered the fetch buffer. -/
  fetched : List α
  settled : List (α × Fate)

/-- The bundles that enter the fetch buffer. -/
def entered : List (FetchBundle c α) := s.fetchBuffer.entered false (s.queueInput i)

/-- The bundles that can be worked on in this cycle. -/
def bundles : List (FetchBundle c α) := s.fetchBuffer.held ++ s.entered i

/-- The instructions in the fetch buffer that are not dispatched. -/
def pending : List α := undoneIn s.finishedMask s.fetchBuffer.held

/-- The instructions that are not dispatched in this cycle either. -/
def leftOver : List α :=
  undoneIn (fun w => s.finishedMask w || s.core.disMask (s.coreInput i) w) (s.bundles i)

/-- The log goes on. -/
def nextLog (log : DispatchLog α) : DispatchLog α where
  fetched := log.fetched ++ (s.entered i).flatMap FetchBundle.valid
  settled := log.settled ++ (s.dispatched i).map (·, .dispatched) ++
    if s.fetchbufferKill then (s.leftOver i).map (·, .killed) else []

def machine (c : BOOMConf) (α : Type) (n : ℕ) [NeZero n] :
    Machine (DecodeStage c α n × DispatchLog α) (DecodeInput c α) :=
  (Machine.clocked IsReset next).observe ⟨[], []⟩ nextLog

/-! ### The invariant -/

variable {s i} {b : FetchBundle c α} {log : DispatchLog α}

/-- The dispatched part of the bundle at the head of the fetch buffer. -/
def doneInHead (s : DecodeStage c α n) : List α :=
  match s.fetchBuffer.held with
  | b :: _ => b.done s.finishedMask
  | [] => []

structure DecodeInv (s : DecodeStage c α n) (log : DispatchLog α) : Prop where
  /-- The mask is about the bundle at the head of the fetch buffer. -/
  empty : s.fetchBuffer.held = [] → s.finishedMask = fun _ => false
  inOrder : ∀ b bs, s.fetchBuffer.held = b :: bs → ∀ v w, v < w → b.mask v = true →
    s.finishedMask w = true → s.finishedMask v = true
  conserves : log.fetched = log.settled.map (·.1) ++ s.pending
  justDone : s.doneInHead.map (·, .dispatched) <:+ log.settled

theorem fbundle_eq : s.fbundle i = (s.bundles i).head? := by
  have hshown : s.fbundle i = (s.fetchBuffer.held ++ (s.enq i).toList).head? :=
    Queue.deq_eq_head
  rw [hshown, bundles, entered, Queue.entered, Queue.enqReady_eq]
  rcases hheld : s.fetchBuffer.held with _ | ⟨b, bs⟩
  · rw [decide_eq_true (by exact Nat.pos_of_neZero n), Bool.true_or, if_pos rfl]
    rfl
  · rfl

theorem held_next (hkill : s.fetchbufferKill = false) :
    s.bundles i = (if s.decRdy i then (s.fbundle i).toList else []) ++
      (s.next i).fetchBuffer.held := by
  have hstep : FifoStep s.fetchBuffer.held (s.entered i) (s.fetchBuffer.left true (s.queueInput i))
      (s.fetchBuffer.next false true (s.queueInput i)).held := Queue.step
  have hnext : (s.next i).fetchBuffer = s.fetchBuffer.next false true (s.queueInput i) :=
    if_neg (by rw [hkill]; nofun)
  rw [hnext]
  exact hstep

theorem held_next_of_kill (hkill : s.fetchbufferKill = true) :
    (s.next i).fetchBuffer.held = [] := by
  refine Queue.IsReset.held ?_
  have hnext : (s.next i).fetchBuffer =
      { s.fetchBuffer.next false true (s.queueInput i) with ptrs := ⟨0, 0, false⟩ } := if_pos hkill
  rw [hnext]
  rfl

/-- Before dispatch, what is left is what was pending and what came. -/
theorem DecodeInv.undoneIn_bundles (h : DecodeInv s log) :
    undoneIn s.finishedMask (s.bundles i) =
      s.pending ++ (s.entered i).flatMap FetchBundle.valid := by
  rw [bundles, pending]
  rcases hheld : s.fetchBuffer.held with _ | ⟨b, bs⟩
  · rw [List.nil_append, h.empty hheld, undoneIn_none]
    rfl
  · rw [List.cons_append, undoneIn, undoneIn, List.flatMap_append, List.append_assoc]

/-- **Dispatch takes the instructions off the front.** -/
theorem undoneIn_eq : undoneIn s.finishedMask (s.bundles i) = s.dispatched i ++ s.leftOver i := by
  have hshown := fbundle_eq (s := s) (i := i)
  rw [leftOver]
  rcases hbundles : s.bundles i with _ | ⟨b, bs⟩
  · rw [hbundles] at hshown
    rw [dispatched, hshown]
    rfl
  · rw [hbundles] at hshown
    rw [undoneIn, undoneIn, undone_eq hshown, List.append_assoc]

theorem finishedMask_next (hgoes : (s.decRdy i || s.fetchbufferKill) = true) :
    (s.next i).finishedMask = fun _ => false := if_pos hgoes

theorem finishedMask_next_of_stays (hgoes : (s.decRdy i || s.fetchbufferKill) = false) :
    (s.next i).finishedMask = fun w => s.finishedMask w || s.core.disMask (s.coreInput i) w := by
  show (if s.decRdy i || s.fetchbufferKill then _ else _) = _
  rw [hgoes, decMask_eq_disMask]
  exact funext fun w => Bool.or_comm ..

theorem leftOver_eq (hkill : s.fetchbufferKill = false) : s.leftOver i = (s.next i).pending := by
  have hshown := fbundle_eq (s := s) (i := i)
  have hheld := held_next (i := i) hkill
  rw [leftOver, pending]
  cases hrdy : s.decRdy i with
  | false =>
    rw [hrdy] at hheld
    rw [finishedMask_next_of_stays (by rw [hrdy, hkill]; rfl), hheld]
    rfl
  | true =>
    rw [finishedMask_next (by rw [hrdy]; rfl), undoneIn_none]
    rw [hrdy, if_pos rfl] at hheld
    rcases hbundles : s.bundles i with _ | ⟨b, bs⟩
    · rw [hbundles] at hheld
      rw [(List.append_eq_nil_iff.mp hheld.symm).2]
      rfl
    · rw [hbundles] at hshown hheld
      rw [hshown] at hheld
      obtain ⟨-, rfl⟩ := List.cons.inj hheld
      rw [undoneIn, undone_of_decRdy hshown hrdy]
      rfl

section

variable (h : DecodeInv s log)
include h

/-- The mask holds a first part of the bundle that is shown. -/
theorem DecodeInv.shown (hb : s.fbundle i = some b) :
    (∀ v w, v < w → b.mask v = true → s.finishedMask w = true → s.finishedMask v = true) ∧
      s.doneInHead = b.done s.finishedMask := by
  rw [fbundle_eq, bundles] at hb
  rw [doneInHead]
  rcases hheld : s.fetchBuffer.held with _ | ⟨b', bs⟩
  · rw [h.empty hheld, FetchBundle.done_none]
    exact ⟨nofun, rfl⟩
  · rw [hheld] at hb
    cases hb
    exact ⟨h.inOrder _ _ hheld, rfl⟩

/-- **A bundle that is taken is dispatched.** All of its instructions, in order. -/
theorem DecodeInv.valid_settled (hkill : s.fetchbufferKill = false) (hb : s.fbundle i = some b)
    (hrdy : s.decRdy i = true) :
    b.valid.map (·, .dispatched) <:+ (s.nextLog i log).settled := by
  obtain ⟨horder, hdone⟩ := h.shown hb
  obtain ⟨before, hbefore⟩ := h.justDone
  rw [valid_of_decRdy hb hrdy, done_eq hb horder, nextLog, hkill, ← hbefore, hdone]
  exact ⟨before, by simp⟩

theorem DecodeInv.justDone_next :
    (s.next i).doneInHead.map (·, .dispatched) <:+ (s.nextLog i log).settled := by
  cases hgoes : s.decRdy i || s.fetchbufferKill with
  | true =>
    have hnone : (s.next i).doneInHead = [] := by
      rw [doneInHead, finishedMask_next hgoes]
      split
      · exact FetchBundle.done_none
      · rfl
    rw [hnone]
    exact List.nil_suffix
  | false =>
    obtain ⟨hrdy, hkill⟩ := Bool.or_eq_false_iff.mp hgoes
    have hshown := fbundle_eq (s := s) (i := i)
    have hheld := held_next (i := i) hkill
    rw [hrdy] at hheld
    rw [doneInHead, finishedMask_next_of_stays hgoes, ← List.nil_append (s.next i).fetchBuffer.held,
      ← show _ = [] ++ (s.next i).fetchBuffer.held from hheld]
    rcases hbundles : s.bundles i with _ | ⟨b, bs⟩
    · exact List.nil_suffix
    · rw [hbundles] at hshown
      obtain ⟨horder, hdone⟩ := h.shown hshown
      obtain ⟨before, hbefore⟩ := h.justDone
      show List.map _ (b.done _) <:+ _
      rw [done_eq hshown horder, nextLog, hkill, ← hbefore, hdone]
      exact ⟨before, by simp⟩

theorem DecodeInv.conserves_next :
    (s.nextLog i log).fetched = (s.nextLog i log).settled.map (·.1) ++ (s.next i).pending := by
  have hall : log.fetched ++ (s.entered i).flatMap FetchBundle.valid =
      log.settled.map (·.1) ++ (s.dispatched i ++ s.leftOver i) := by
    rw [← undoneIn_eq, h.undoneIn_bundles, h.conserves, List.append_assoc]
  have hfst : ∀ (l : List α) (f : Fate), (l.map (·, f)).map (·.1) = l := by
    intro l f
    rw [List.map_map]
    exact List.map_id l
  rw [nextLog, hall]
  cases hkill : s.fetchbufferKill with
  | false =>
    rw [leftOver_eq hkill, if_neg (by simp), List.append_nil, List.map_append, hfst,
      List.append_assoc]
  | true =>
    have hnone : (s.next i).pending = [] := by rw [pending, held_next_of_kill hkill]; rfl
    rw [hnone, if_pos rfl, List.map_append, List.map_append, hfst, hfst, List.append_nil]
    exact (List.append_assoc ..).symm

theorem DecodeInv.next : DecodeInv (s.next i) (s.nextLog i log) where
  conserves := h.conserves_next
  justDone := h.justDone_next
  empty hempty := by
    cases hgoes : s.decRdy i || s.fetchbufferKill with
    | true => exact finishedMask_next hgoes
    | false =>
      obtain ⟨hrdy, hkill⟩ := Bool.or_eq_false_iff.mp hgoes
      have hheld := held_next (i := i) hkill
      rw [hrdy, hempty] at hheld
      have hshown : s.fbundle i = none := by
        rw [fbundle_eq, show s.bundles i = [] from hheld]
        rfl
      rw [finishedMask_next_of_stays hgoes, h.empty (List.append_eq_nil_iff.mp hheld).1]
      funext w
      by_contra hdis
      have hvalid : s.decValids i w = true := (Core.goes_of_disMask (by simpa using hdis)).valid
      rw [decValids, hshown] at hvalid
      cases hvalid
  inOrder b bs hheld' v w hvw hmask := by
    cases hgoes : s.decRdy i || s.fetchbufferKill with
    | true =>
      rw [finishedMask_next hgoes]
      nofun
    | false =>
      obtain ⟨hrdy, hkill⟩ := Bool.or_eq_false_iff.mp hgoes
      have hheld := held_next (i := i) hkill
      rw [hrdy, hheld'] at hheld
      have hshown : s.fbundle i = some b := by
        rw [fbundle_eq, show s.bundles i = b :: bs from hheld]
        rfl
      rw [finishedMask_next_of_stays hgoes]
      intro hw
      show (s.finishedMask v || s.core.disMask (s.coreInput i) v) = true
      rcases Bool.or_eq_true_iff.mp hw with hfinished | hdis
      · rw [(h.shown hshown).1 v w hvw hmask hfinished]
        rfl
      · cases hv : s.finishedMask v with
        | true => rfl
        | false =>
          refine disMask_of_lt hvw ?_ hdis
          rw [decValids_eq hshown, hmask, hv]
          rfl

end

theorem DecodeInv.of_isReset (h : s.IsReset) : DecodeInv s ⟨[], []⟩ where
  empty _ := h.finishedMask
  inOrder b bs hheld := by
    rw [h.fetchBuffer.held] at hheld
    cases hheld
  conserves := by
    rw [pending, h.fetchBuffer.held]
    rfl
  justDone := by
    rw [doneInHead, h.fetchBuffer.held]
    exact List.nil_suffix

theorem reachable_decodeInv (h : (machine c α n).Reachable (s, log)) : DecodeInv s log := by
  refine Machine.invariant
    (I := fun x : DecodeStage c α n × DispatchLog α => DecodeInv x.1 x.2) ?_ ?_ (s, log) h
  · rintro ⟨s, log⟩ ⟨hreset, rfl⟩
    exact .of_isReset hreset
  · rintro ⟨s, log⟩ i ⟨s', log'⟩ _ h ⟨rfl, rfl⟩
    exact h.next

/-- **Dispatch is in order and exactly once**, whatever stalls and whatever is killed:

* what was fetched is what was dispatched or killed, in this order, and then what is pending
* when the next bundle is taken, the last instructions that were dispatched are those of this one
* a kill leaves nothing pending
* the oldest instruction is dispatched unless a slot up to its own stalls for a reason of its own -/
theorem dispatch_exact (c : BOOMConf) (α : Type) (n : ℕ) [NeZero n] :
    ∀ s log, (machine c α n).Reachable (s, log) →
      log.fetched = log.settled.map (·.1) ++ s.pending ∧
      ∀ i, (s.fetchbufferKill = false → ∀ b, s.fbundle i = some b → s.decRdy i = true →
          b.valid.map (·, Fate.dispatched) <:+ (s.nextLog i log).settled) ∧
        (s.fetchbufferKill = true → (s.next i).pending = []) ∧
        ∀ w, s.decValids i w = true → (∀ v, v < w → s.decValids i v = false) →
          (∀ v, v ≤ w → s.core.stallMe (s.coreInput i) ⟨s.core.branchMask, false⟩ v = false) →
          s.core.disMask (s.coreInput i) w = true := by
  intro s log hreach
  have h := reachable_decodeInv hreach
  refine ⟨h.conserves, fun i => ⟨?_, ?_, ?_⟩⟩
  · intro hkill b hb hrdy
    exact h.valid_settled hkill hb hrdy
  · intro hkill
    rw [pending, held_next_of_kill hkill]
    rfl
  · intro w hvalid holdest hfree
    exact disMask_of_oldest hvalid holdest hfree

/-- A bundle, whose first instruction is `1` and has to be alone. -/
def fetch (b : Option (FetchBundle .tiny ℕ)) : DecodeInput .tiny ℕ where
  imemResp := b
  decode a := .addi (decide (a = 1)) 5 0
  core := .feed false (fun _ => .addi false 5 0) []

def twoInsts : FetchBundle .tiny ℕ := ⟨fun _ => true, fun w => w + 1⟩

/-- One cycle after reset the bundle is fetched. -/
def afterFetch : DecodeStage .tiny ℕ fetchBufferSz × DispatchLog ℕ :=
  Machine.cycles next nextLog [fetch none, fetch (some twoInsts)] (reset twoInsts, ⟨[], []⟩)

/-- The first instruction is dispatched at once, and the second one waits. -/
theorem dispatch_exact_twoInsts :
    afterFetch.2.settled.map (·.1) = [1] ∧ afterFetch.1.pending = [2] ∧
      afterFetch.2.fetched = afterFetch.2.settled.map (·.1) ++ afterFetch.1.pending := by
  have hstart : (machine .tiny ℕ fetchBufferSz).Reachable (reset twoInsts, ⟨[], []⟩) :=
    .init ⟨isReset_reset twoInsts, rfl⟩
  exact ⟨by decide +kernel, by decide +kernel,
    (dispatch_exact .tiny ℕ fetchBufferSz _ _ (Machine.reachable_cycles hstart _)).1⟩

end DecodeStage

end RiscvSoc
