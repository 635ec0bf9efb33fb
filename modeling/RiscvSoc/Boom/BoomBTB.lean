import RiscvSoc.Lib.Bits
import RiscvSoc.Lib.Encoder
import RiscvSoc.Lib.Machine

/-!
# The superscalar branch target buffer

`BTB` from `boom/src/main/scala/btb.scala`, with its connections in `Frontend` of `icache.scala`. An
entry belongs to a fetch packet: the tag has the address of the branch, but a lookup and an update
compare the packets only. An update goes to the entry of its packet, or if there is none to an entry
that is not valid, or else to one at random. That keeps the packets of the valid entries distinct,
whatever the random numbers are.

A clearing update whose packet has no entry empties the entry that an update would have gone to.
Something is forgotten then, but nothing wrong is remembered.

The buffer has an input `invalidate`, which the front end raises on `FENCE.I` and when the page
table changes, and which nothing inside looks at. So the entries stay, and what they say about an
address was never written since. `Quiet` is about the cycles in which that makes no difference.
-/

namespace RiscvSoc

/-- The registers of the buffer. -/
structure BoomBTB (entries : ℕ) where
  valid : Fin entries → Bool
  tag : Fin entries → ℕ
  targets : Fin entries → ℕ

namespace BoomBTB

variable {n : ℕ}

/-- The inputs of a cycle, but for the address that is looked up. -/
structure In where
  wen : Bool
  clr : Bool
  invalidate : Bool
  correctPc : ℕ
  correctTarget : ℕ
  randomWay : ℕ

section Circuit

variable (W : ℕ) (s : BoomBTB n) (i : In)

/-- `msk_sz`, for a fetch width. -/
def mskSz : ℕ := if W = 1 then 2 else Bits.log2Up W + 2

/-- What `check_mask` keeps of an address. -/
def packet (addr : ℕ) : ℕ := addr >>> mskSz W

/-- Which instruction of its packet an address is. -/
def slot (addr : ℕ) : ℕ := if W = 1 then 0 else Bits.bits addr (mskSz W - 1) 2

/-- The packets are the same. -/
def tagCheck (pc : ℕ) (e : Fin n) : Bool := s.valid e && packet W (s.tag e) == packet W pc

/-- `br_too_old`. -/
def brTooOld (pc : ℕ) (e : Fin n) : Bool := decide (slot W pc > slot W (s.tag e))

def hits (pc : ℕ) (e : Fin n) : Bool := s.tagCheck W pc e && !s.brTooOld W pc e

def updates : Fin n → Bool := s.tagCheck W i.correctPc

def anyUpdate : Bool := orR (s.updates W i)

def replWay : ℕ :=
  match priorityEncoder fun e => !s.valid e with
  | some e => e
  | none => i.randomWay

/-- The entry is written, or emptied. -/
def writes (e : Fin n) : Bool :=
  i.wen && (s.updates W i e || !s.anyUpdate W i && decide (e.val = s.replWay i))

def next : BoomBTB n where
  valid e := if s.writes W i e then !i.clr else s.valid e
  tag e := if s.writes W i e && !i.clr then i.correctPc else s.tag e
  targets e := if s.writes W i e && !i.clr then i.correctTarget else s.targets e

def hit (pc : ℕ) : Bool := orR (s.hits W pc)

def target (pc : ℕ) : ℕ := mux1H (s.hits W pc) s.targets

def hitIdx (pc : ℕ) : ℕ := mux1H (s.hits W pc) fun e => slot W (s.tag e)

end Circuit

/-! ### The front end -/

/-- What the front end has to tell the buffer. -/
structure FrontendReq where
  mispredict : Bool
  taken : Bool
  currentpc : ℕ
  btbCorrectTarget : ℕ
  /-- `io.cpu.invalidate`. -/
  invalidate : Bool
  /-- `io.cpu.ptw.invalidate`. -/
  ptwInvalidate : Bool

/-- The connections in `Frontend`. -/
def FrontendReq.toIn (req : FrontendReq) (randomWay : ℕ) : In where
  wen := req.mispredict
  clr := !req.taken
  invalidate := req.invalidate || req.ptwInvalidate
  correctPc := req.currentpc
  correctTarget := req.btbCorrectTarget
  randomWay := randomWay

/-! ### What it is to remember -/

inductive Event
  | update (pc target : ℕ)
  | clear (pc : ℕ)
  | invalidate
  deriving DecidableEq, Repr

/-- The target of the latest update for a packet, unless it was cleared or the buffer invalidated
since. The latest event stands first. -/
def lastUpdate (W : ℕ) : List Event → ℕ → Option ℕ
  | [], _ => none
  | .update pc target :: es, p => if packet W pc = p then some target else lastUpdate W es p
  | .clear pc :: es, p => if packet W pc = p then none else lastUpdate W es p
  | .invalidate :: _, _ => none

/-- The events of a cycle. An update that comes with an invalidation comes after it. -/
def record (_ : BoomBTB n) (i : In) (h : List Event) : List Event :=
  (if i.wen then [if i.clr then .clear i.correctPc else .update i.correctPc i.correctTarget]
    else []) ++ (if i.invalidate then [.invalidate] else []) ++ h

/-- The buffer from reset on. -/
def machine (n W : ℕ) : Machine (BoomBTB n × List Event) In :=
  (Machine.clocked (fun s : BoomBTB n => ∀ e, s.valid e = false) (next W)).observe [] record

/-- At most one valid entry matches an address, and a hit gives the target of the latest update. -/
def Correct (W : ℕ) (x : BoomBTB n × List Event) : Prop :=
  ∀ pc, (∀ e e', x.1.tagCheck W pc e = true → x.1.tagCheck W pc e' = true → e = e') ∧
    (x.1.hit W pc = true → lastUpdate W x.2 (packet W pc) = some (x.1.target W pc))

/-- All entries that an invalidation ought to empty are written in the same cycle. -/
def Quiet (W : ℕ) (s : BoomBTB n) (i : In) : Prop :=
  i.invalidate = true → ∀ e, s.valid e = true → s.writes W i e = true

/-- The packets of the valid entries are distinct, and each entry has the latest target. -/
structure Inv (W : ℕ) (x : BoomBTB n × List Event) : Prop where
  unique : ∀ e e', x.1.valid e = true → x.1.valid e' = true →
    packet W (x.1.tag e) = packet W (x.1.tag e') → e = e'
  agrees : ∀ e, x.1.valid e = true →
    lastUpdate W x.2 (packet W (x.1.tag e)) = some (x.1.targets e)

/-! ### One cycle -/

section Step

variable {W : ℕ} {s : BoomBTB n} {i : In} {h : List Event}

variable {e : Fin n}

theorem tagCheck_iff {pc : ℕ} : s.tagCheck W pc e = true ↔
    s.valid e = true ∧ packet W (s.tag e) = packet W pc := by
  rw [tagCheck, Bool.and_eq_true, beq_iff_eq]

theorem writes_of_tagCheck (hwen : i.wen = true)
    (he : s.tagCheck W i.correctPc e = true) : s.writes W i e = true := by
  rw [writes, hwen, updates, he]
  rfl

theorem next_of_not_writes (he : s.writes W i e = false) :
    (s.next W i).valid e = s.valid e ∧ (s.next W i).tag e = s.tag e ∧
      (s.next W i).targets e = s.targets e := by
  simp [next, he]

/-- An entry that is written and valid afterwards has been given the update. -/
theorem next_of_writes (he : s.writes W i e = true)
    (hvalid : (s.next W i).valid e = true) : i.wen = true ∧ i.clr = false ∧
      (s.next W i).tag e = i.correctPc ∧ (s.next W i).targets e = i.correctTarget := by
  have hwen : i.wen = true := by
    rw [writes, Bool.and_eq_true] at he
    exact he.1
  have hclr : i.clr = false := by simpa [next, he] using hvalid
  simp [next, he, hwen, hclr]

theorem hits_self (e : Fin n) (hvalid : s.valid e = true) : s.hits W (s.tag e) e = true := by
  simp [hits, tagCheck, brTooOld, hvalid]

theorem lastUpdate_record_of_ne {p : ℕ} (hp : i.wen = true → packet W i.correctPc ≠ p) :
    lastUpdate W (record s i h) p = if i.invalidate then none else lastUpdate W h p := by
  rw [record]
  cases hwen : i.wen with
  | false => cases i.invalidate <;> rfl
  | true =>
    have hne := hp hwen
    cases i.clr <;> cases i.invalidate <;> simp [lastUpdate, hne]

variable (hI : Inv W (s, h))

include hI

theorem eq_of_writes {e e' : Fin n} (he : s.writes W i e = true) (he' : s.writes W i e' = true) :
    e = e' := by
  rw [writes, Bool.and_eq_true, Bool.or_eq_true, Bool.and_eq_true, decide_eq_true_eq] at he he'
  have hany {e : Fin n} (h : s.updates W i e = true) : s.anyUpdate W i = true :=
    orR_eq_true.2 ⟨e, h⟩
  rcases he.2 with hu | ⟨hno, hr⟩
  · rcases he'.2 with hu' | ⟨hno', -⟩
    · obtain ⟨hv, hp⟩ := tagCheck_iff.1 hu
      obtain ⟨hv', hp'⟩ := tagCheck_iff.1 hu'
      exact hI.unique e e' hv hv' (hp.trans hp'.symm)
    · rw [hany hu] at hno'
      cases hno'
  · rcases he'.2 with hu' | ⟨-, hr'⟩
    · rw [hany hu'] at hno
      cases hno
    · exact Fin.ext (hr.trans hr'.symm)

theorem inv_next (hq : Quiet W s i) : Inv W (s.next W i, record s i h) := by
  -- Of two entries of one packet behind the cycle one alone cannot have been written: the other
  -- one would have been written in its place.
  have hone {e e' : Fin n} (he : s.writes W i e = true) (he' : s.writes W i e' = false)
      (hv : (s.next W i).valid e = true) (hv' : (s.next W i).valid e' = true) :
      packet W ((s.next W i).tag e) ≠ packet W ((s.next W i).tag e') := by
    obtain ⟨hwen, -, htag, -⟩ := next_of_writes he hv
    obtain ⟨hval', htag', -⟩ := next_of_not_writes he'
    rw [htag, htag']
    intro hp
    rw [writes_of_tagCheck hwen (tagCheck_iff.2 ⟨hval' ▸ hv', hp.symm⟩)] at he'
    cases he'
  constructor
  · intro e e' hv hv' hp
    cases he : s.writes W i e with
    | true =>
      cases he' : s.writes W i e' with
      | true => exact eq_of_writes hI he he'
      | false => exact absurd hp (hone he he' hv hv')
    | false =>
      cases he' : s.writes W i e' with
      | true => exact absurd hp.symm (hone he' he hv' hv)
      | false =>
        obtain ⟨hval, htag, -⟩ := next_of_not_writes he
        obtain ⟨hval', htag', -⟩ := next_of_not_writes he'
        refine hI.unique e e' (hval ▸ hv) (hval' ▸ hv') ?_
        rw [← htag, ← htag']
        exact hp
  · intro e hv
    cases he : s.writes W i e with
    | true =>
      obtain ⟨hwen, hclr, htag, htarget⟩ := next_of_writes he hv
      simp [record, hwen, hclr, htag, htarget, lastUpdate]
    | false =>
      obtain ⟨hval, htag, htarget⟩ := next_of_not_writes he
      have hvalid : s.valid e = true := hval ▸ hv
      have hinv : i.invalidate = false := by
        rw [← Bool.not_eq_true]
        intro hi
        rw [hq hi e hvalid] at he
        cases he
      have hne (hwen : i.wen = true) : packet W i.correctPc ≠ packet W (s.tag e) := by
        intro hp
        rw [writes_of_tagCheck hwen (tagCheck_iff.2 ⟨hvalid, hp.symm⟩)] at he
        cases he
      simp only [htag, htarget]
      rw [lastUpdate_record_of_ne hne, hinv, if_neg (by simp)]
      exact hI.agrees e hvalid

theorem correct_of_inv : Correct W (s, h) := by
  intro pc
  have hunique (e e' : Fin n) (he : s.tagCheck W pc e = true) (he' : s.tagCheck W pc e' = true) :
      e = e' := by
    obtain ⟨hv, hp⟩ := tagCheck_iff.1 he
    obtain ⟨hv', hp'⟩ := tagCheck_iff.1 he'
    exact hI.unique e e' hv hv' (hp.trans hp'.symm)
  refine ⟨hunique, fun hhit => ?_⟩
  obtain ⟨e, he⟩ := orR_eq_true.1 hhit
  have hcheck {e : Fin n} (h : s.hits W pc e = true) : s.tagCheck W pc e = true := by
    rw [hits, Bool.and_eq_true] at h
    exact h.1
  have htarget : s.target W pc = s.targets e := by
    refine mux1H_eq fun e' => ⟨fun he' => hunique e' e (hcheck he') (hcheck he), ?_⟩
    rintro rfl
    exact he
  obtain ⟨hv, hp⟩ := tagCheck_iff.1 (hcheck he)
  show lastUpdate W h (packet W pc) = some (s.target W pc)
  rw [htarget, ← hp]
  exact hI.agrees e hv

omit hI in
theorem quiet_of_correct (hc : Correct W (s.next W i, record s i h)) : Quiet W s i := by
  intro hinv e hvalid
  by_contra he
  rw [Bool.not_eq_true] at he
  obtain ⟨hval, htag, -⟩ := next_of_not_writes he
  have hne (hwen : i.wen = true) : packet W i.correctPc ≠ packet W (s.tag e) := by
    intro hp
    rw [writes_of_tagCheck hwen (tagCheck_iff.2 ⟨hvalid, hp.symm⟩)] at he
    cases he
  have hhit : (s.next W i).hit W ((s.next W i).tag e) = true :=
    orR_eq_true.2 ⟨e, hits_self e (hval.trans hvalid)⟩
  have hlast := (hc ((s.next W i).tag e)).2 hhit
  simp only [htag] at hlast
  rw [lastUpdate_record_of_ne hne, if_pos hinv] at hlast
  cases hlast

end Step

/-! ### Runs -/

section Run

variable {W : ℕ} {st : ℕ → BoomBTB n × List Event} {lab : ℕ → In}

theorem inv_of_quiet (hrun : (machine n W).Run st lab) {t : ℕ}
    (hq : ∀ u < t, Quiet W (st u).1 (lab u)) : Inv W (st t) := by
  induction t with
  | zero =>
    have hinvalid (e : Fin n) (h : (st 0).1.valid e = true) : False := by
      rw [hrun.init.1 e] at h
      cases h
    exact ⟨fun e _ h => (hinvalid e h).elim, fun e h => (hinvalid e h).elim⟩
  | succ t ih =>
    have hI := ih fun u hu => hq u (Nat.lt_succ_of_lt hu)
    obtain ⟨hnext, hrecord⟩ := hrun.step t
    have hstep := inv_next hI (hq t (Nat.lt_succ_self t))
    rwa [← hnext, ← hrecord] at hstep

/-- For every number of entries and fetch width, and every run of updates, clearing updates and
invalidations, the buffer is a correct partial map in all states exactly when each invalidation
finds no valid entry but one that is written in the same cycle. -/
theorem correct_iff (hrun : (machine n W).Run st lab) :
    (∀ t, Correct W (st t)) ↔ ∀ t, Quiet W (st t).1 (lab t) := by
  constructor
  · intro hc t
    have hnext : st (t + 1) = ((st t).1.next W (lab t), record (st t).1 (lab t) (st t).2) :=
      Prod.ext (hrun.step t).1 (hrun.step t).2
    exact quiet_of_correct (hnext ▸ hc (t + 1))
  · exact fun hq t => correct_of_inv (inv_of_quiet hrun fun u _ => hq u)

/-- Inputs for every cycle have a run from an empty buffer. -/
theorem exists_run (n W : ℕ) (lab : ℕ → In) : ∃ st, (machine n W).Run st lab ∧
    st 0 = (⟨fun _ => false, fun _ => 0, fun _ => 0⟩, []) :=
  Machine.exists_run (fun _ => rfl) lab

end Run

/-! ### Two runs -/

/-- A jump at address 8 goes to 64, and in the next cycle there may be a `FENCE.I`. -/
def jumpThenFence (fence : Bool) (t : ℕ) : In :=
  FrontendReq.toIn ⟨decide (t = 0), true, 8, 64, decide (t = 1) && fence, false⟩ 0

/-- Without one the jump is remembered. -/
theorem correct_jump : ∃ st, (machine 4 2).Run st (jumpThenFence false) ∧
    (∀ t, Correct 2 (st t)) ∧ (st 2).1.hit 2 8 = true ∧ (st 2).1.target 2 8 = 64 := by
  obtain ⟨st, hrun, h0⟩ := exists_run 4 2 (jumpThenFence false)
  have hnext : (st 2).1 =
      next 2 (next 2 (st 0).1 (jumpThenFence false 0)) (jumpThenFence false 1) :=
    (hrun.step 1).1.trans (congrArg (next 2 · _) (hrun.step 0).1)
  rw [h0] at hnext
  refine ⟨st, hrun, (correct_iff hrun).2 fun t h => ?_, ?_, ?_⟩
  · simp [jumpThenFence, FrontendReq.toIn] at h
  · rw [hnext]
    decide
  · rw [hnext]
    decide

/-- With it the buffer ought to be empty, and still has it. -/
theorem stale_target : ∃ st, (machine 4 2).Run st (jumpThenFence true) ∧ ¬Correct 2 (st 2) := by
  obtain ⟨st, hrun, h0⟩ := exists_run 4 2 (jumpThenFence true)
  refine ⟨st, hrun, fun hc => ?_⟩
  have h1 : st 1 = (next 2 _ (jumpThenFence true 0), [.update 8 64]) :=
    Prod.ext ((hrun.step 0).1.trans (by rw [h0])) ((hrun.step 0).2.trans (by rw [h0]; rfl))
  have hnext := (hrun.step 1).1
  have hrecord := (hrun.step 1).2
  rw [h1] at hnext hrecord
  have hlast := (hc 8).2 (by rw [hnext]; decide)
  rw [hrecord] at hlast
  cases hlast

end BoomBTB

end RiscvSoc
