import RiscvSoc.Boom.Issue

/-!
# What waits in the issue unit

A history variable gives a ticket to each half that is dispatched and notes which slot holds it. A
slot is valid exactly if it holds a ticket; no two slots hold the same one; a ticket that needs a
slot gets a free one in the cycle of the dispatch, and keeps it until its micro-op is issued or
killed.

## Who gets a ticket

Not every dispatched micro-op waits: one that carries an exception, and one that no unit executes,
goes to the reorder buffer only. `IssueUop.needs` says which.
-/

namespace RiscvSoc

variable {c : BOOMConf} {N n W : ℕ}

/-- One half of a dispatched micro-op: when it was dispatched, and in which lane. -/
structure Ticket (n : ℕ) where
  cycle : ℕ
  lane : Fin n
  is2ndUop : Bool
  deriving DecidableEq

/-- Which ticket each slot holds. -/
structure IssueLog (N n : ℕ) where
  now : ℕ
  holds : Fin N → Option (Ticket n)

namespace IssueUnit

variable (hp : IssueUop c → Bool) (s : IssueUnit c N) (i : IssueInput c n W)

/-- The history sees one cycle. -/
def logNext (h : IssueLog N n) : IssueLog N n where
  now := h.now + 1
  holds k :=
    if ((s.next hp i).slots k).slotValid then
      match s.writer i k with
      | some (w, b) => some ⟨h.now, w, b⟩
      | none => h.holds k
    else none

/-- The unit behind the rename stage, with its history. -/
def machine (N n W : ℕ) : Machine (IssueUnit c N × IssueLog N n) (IssueInput c n W) :=
  ((Machine.clocked IsReset (next hp)).observe ⟨0, fun _ => none⟩ (logNext hp)).restrict
    fun s i => s.1.Dispatches i

/-- Every dispatched micro-op waits in a slot. -/
def DispatchedWait (N n W : ℕ) : Prop :=
  ∀ s h (i : IssueInput c n W), (machine hp N n W).Reachable (s, h) → s.Dispatches i →
    ∀ w, i.disMask w = true → ∃ k, (logNext hp s i h).holds k = some ⟨h.now, w, false⟩

variable {hp s i} {h : IssueLog N n}

/-! ### One cycle -/

theorem logNext_holds (k : Fin N) : (logNext hp s i h).holds k =
    if ((s.next hp i).slots k).slotValid then
      match s.writer i k with
      | some (w, b) => some ⟨h.now, w, b⟩
      | none => h.holds k
    else none := rfl

variable {k : Fin N} {x : Ticket n}

/-- A half that is dispatched gets the slot it is written to. -/
theorem holds_of_writes (hok : s.Dispatches i) {w : Fin n} {b : Bool}
    (hw : s.writes i k w b = true) : (logNext hp s i h).holds k = some ⟨h.now, w, b⟩ := by
  rw [logNext_holds, writer_of_writes hw, if_pos (next_of_writes hok hw).1]

theorem of_holds (hx : (logNext hp s i h).holds k = some x) :
    (∃ w b, s.writes i k w b = true ∧ x = ⟨h.now, w, b⟩) ∨
      s.writer i k = none ∧ h.holds k = some x := by
  rw [logNext_holds] at hx
  split at hx
  · cases hwriter : s.writer i k with
    | some y =>
      obtain ⟨w, b⟩ := y
      rw [hwriter] at hx
      cases hx
      exact .inl ⟨w, b, writer_eq_some.mp hwriter, rfl⟩
    | none =>
      rw [hwriter] at hx
      exact .inr ⟨rfl, hx⟩
  · cases hx

/-- Each valid slot holds a ticket, and no ticket is held twice. -/
structure HeldOnce (s : IssueUnit c N) (h : IssueLog N n) : Prop where
  valid : ∀ k, (h.holds k).isSome = (s.slots k).slotValid
  unique : ∀ j k x, h.holds j = some x → h.holds k = some x → j = k
  past : ∀ k x, h.holds k = some x → x.cycle < h.now

theorem HeldOnce.next (hi : s.HeldOnce h) : (s.next hp i).HeldOnce (logNext hp s i h) := by
  refine ⟨?_, ?_, ?_⟩
  · intro k
    rw [logNext_holds]
    cases hvalid : ((s.next hp i).slots k).slotValid with
    | false => rfl
    | true =>
      rw [if_pos rfl]
      cases hwriter : s.writer i k with
      | some y => rfl
      | none =>
        rw [next_of_not_writes hwriter, Bool.and_eq_true, Bool.and_eq_true] at hvalid
        exact (hi.valid k).trans hvalid.1.1
  · intro j k x hj hk
    rcases of_holds hj with ⟨w, b, hw, rfl⟩ | ⟨-, hj⟩ <;>
      rcases of_holds hk with ⟨w', b', hw', heq⟩ | ⟨-, hk⟩
    · cases heq
      have hjk := (writes_eq_true.mp hw).2.2.symm.trans (writes_eq_true.mp hw').2.2
      exact Option.some.inj hjk
    · exact absurd (hi.past k _ hk) (lt_irrefl _)
    · subst heq
      exact absurd (hi.past j _ hj) (lt_irrefl _)
    · exact hi.unique j k x hj hk
  · intro k x hx
    rcases of_holds hx with ⟨w, b, -, rfl⟩ | ⟨-, hx⟩
    · exact Nat.lt_succ_self h.now
    · exact Nat.lt_succ_of_lt (hi.past k x hx)

theorem reachable_heldOnce (hs : (machine hp N n W).Reachable (s, h)) : s.HeldOnce h := by
  refine Machine.invariant (I := fun x => x.1.HeldOnce x.2) ?_ ?_ (s, h) hs
  · rintro ⟨s, h⟩ ⟨hreset, rfl⟩
    refine ⟨fun k => (hreset k).symm, ?_, ?_⟩
    · intro j k x hj
      cases hj
    · intro k x hx
      cases hx
  · rintro ⟨s, h⟩ i ⟨s', h'⟩ - hi ⟨-, rfl, rfl⟩
    exact hi.next

/-- **A ticket stays in its slot** until its micro-op is issued or killed. -/
theorem HeldOnce.stays_or_leaves (hi : s.HeldOnce h) (hx : h.holds k = some x) :
    (s.killed i k = true ∨ (s.selection hp i).issue k = true) ∧
        (logNext hp s i h).holds k = none ∨
      s.killed i k = false ∧ (s.selection hp i).issue k = false ∧
        (logNext hp s i h).holds k = some x ∧
        ((s.next hp i).slots k).slotUop = { (s.slots k).slotUop with
          brMask := getNewBrMask i.brinfo (s.slots k).slotUop.brMask } := by
  have hvalid : (s.slots k).slotValid = true := by
    rw [← hi.valid k, hx]
    rfl
  have hwriter : s.writer i k = none := by
    rw [Option.eq_none_iff_forall_ne_some]
    rintro ⟨w, b⟩ hw
    rw [free_of_writes (writer_eq_some.mp hw)] at hvalid
    cases hvalid
  have hnext : ((s.next hp i).slots k).slotValid = _ := next_of_not_writes hwriter
  rw [hvalid, Bool.true_and] at hnext
  rw [logNext_holds, hwriter]
  cases hkilled : s.killed i k with
  | true =>
    rw [hkilled, Bool.not_true, Bool.false_and] at hnext
    exact .inl ⟨.inl rfl, if_neg (by rw [hnext]; exact Bool.false_ne_true)⟩
  | false =>
    cases hissue : (s.selection hp i).issue k with
    | true =>
      rw [hissue, Bool.not_true, Bool.and_false] at hnext
      exact .inl ⟨.inr rfl, if_neg (by rw [hnext]; exact Bool.false_ne_true)⟩
    | false =>
      rw [hkilled, hissue] at hnext
      exact .inr ⟨rfl, rfl, (if_pos hnext).trans hx, uop_of_not_writes hwriter hkilled hissue⟩

/-! ### The issue unit as a whole -/

/-- A micro-op with an exception. -/
def faulting : IssueUop BOOMConf.chip where
  ldst := 0
  lrs1 := 0
  lrs2 := 0
  ldstRtype := .x
  lrs1Rtype := .x
  lrs2Rtype := .x
  isBrOrJmp := false
  isJal := false
  brTag := 0
  brMask := fun _ => false
  pdst := 0
  stalePdst := 0
  pop1 := 0
  pop2 := 0
  prs1Busy := false
  prs2Busy := false
  isSret := false
  isMemSpecial := false
  isFencei := false
  exception := true
  excCause := 0
  isStore := false
  isLoad := false
  isUnique := false
  flushOnCommit := false
  robIdx := 0
  ldqIdx := 0
  stqIdx := 0
  seq := 0
  uopc := .other
  inst := 0
  fuCode := 1
  syscall := false

/-- The unit after reset, and a cycle that dispatches `faulting`. -/
def emptyUnit : IssueUnit BOOMConf.chip 2 := ⟨fun _ => ⟨false, false, false, faulting⟩⟩

def faultingCycle : IssueInput BOOMConf.chip 1 1 :=
  ⟨fun _ => true, fun _ => faulting, fun _ => 1, none, false, []⟩

/-- A micro-op that carries an exception waits in no slot. -/
theorem not_dispatchedWait : ¬DispatchedWait (c := BOOMConf.chip) (fun _ => false) 2 1 1 := by
  intro hwait
  have hreset : (machine (c := BOOMConf.chip) (fun _ => false) 2 1 1).Reachable
      (emptyUnit, ⟨0, fun _ => none⟩) :=
    .init ⟨fun _ => rfl, rfl⟩
  have hok : emptyUnit.Dispatches faultingCycle := by
    intro w _
    rw [Subsingleton.elim w 0]
    exact ⟨by decide, rfl⟩
  obtain ⟨k, hk⟩ := hwait emptyUnit _ faultingCycle hreset hok 0 rfl
  rcases of_holds hk with ⟨w, b, hw, -⟩ | ⟨-, hold⟩
  · have hneeds := (writes_eq_true.mp hw).2.1
    cases b <;> cases hneeds
  · cases hold

/-- **Issuing loses and duplicates nothing.** A slot is issued exactly if it is on a port, on one
port only; a port gets only what asked and what it supports, and is idle only if no one it supports
is left asking. A valid slot holds a ticket, no two slots the same one. Every half of a dispatched
micro-op that needs a slot gets one, which was free; no other slot is written; and it stays there,
unchanged up to the branch mask, until it is issued or killed. -/
theorem issue_exact (c : BOOMConf) (N n W : ℕ) (hp : IssueUop c → Bool) :
    (∀ (s : IssueUnit c N) (i : IssueInput c n W),
      (∀ k, (s.selection hp i).issue k = true ↔ ∃ w, (s.selection hp i).iss w = some k) ∧
      (∀ v w k, (s.selection hp i).iss v = some k → (s.selection hp i).iss w = some k → v = w) ∧
      (∀ w k, (s.selection hp i).iss w = some k →
        s.request i k = true ∧ (s.slots k).slotUop.fuCode &&& i.fuTypes w ≠ 0) ∧
      ∀ w, (s.selection hp i).iss w = none → ∀ k, s.request i k = true →
        (s.selection hp i).issue k = false → (s.slots k).slotUop.fuCode &&& i.fuTypes w = 0) ∧
    (∀ s h, (machine hp N n W).Reachable (s, h) →
      (∀ k, (h.holds k).isSome = (s.slots k).slotValid) ∧
      ∀ j k x, h.holds j = some x → h.holds k = some x → j = k) ∧
    (∀ s h (i : IssueInput c n W), (machine hp N n W).Reachable (s, h) → s.Dispatches i →
      (∀ w b, i.disMask w = true → (i.disUops w).needs b = true → ∃ k,
        (s.slots k).slotValid = false ∧ (logNext hp s i h).holds k = some ⟨h.now, w, b⟩ ∧
        ((s.next hp i).slots k).slotUop = (i.disUops w).half b) ∧
      (∀ k x, (logNext hp s i h).holds k = some x → h.holds k = some x ∨
        (s.slots k).slotValid = false ∧ ∃ w b, i.disMask w = true ∧
          (i.disUops w).needs b = true ∧ x = ⟨h.now, w, b⟩) ∧
      ∀ k x, h.holds k = some x →
        (s.killed i k = true ∨ (s.selection hp i).issue k = true) ∧
            (logNext hp s i h).holds k = none ∨
          s.killed i k = false ∧ (s.selection hp i).issue k = false ∧
            (logNext hp s i h).holds k = some x ∧
            ((s.next hp i).slots k).slotUop = { (s.slots k).slotUop with
              brMask := getNewBrMask i.brinfo (s.slots k).slotUop.brMask }) := by
  refine ⟨?_, ?_, ?_⟩
  · intro s i
    have hsel : PortSelect.Satisfies (s.supports i) (s.request i) (List.finRange W)
        (s.selection hp i) := selection_satisfies
    refine ⟨hsel.issue_iff, hsel.once, ?_, ?_⟩
    · intro w k hw
      obtain ⟨hreq, hcan⟩ := hsel.asked w k hw
      exact ⟨hreq, of_decide_eq_true hcan⟩
    · intro w hnone k hreq hissue
      have hwait : (s.selection hp i).waiting k = true := by
        rw [hsel.waits k, hreq, hissue]
        rfl
      have hcan := hsel.idle w (List.mem_finRange w) hnone k hwait
      exact not_not.mp (of_decide_eq_false hcan)
  · intro s h hs
    have hi := reachable_heldOnce hs
    exact ⟨hi.valid, hi.unique⟩
  · intro s h i hs hok
    have hi := reachable_heldOnce hs
    refine ⟨?_, ?_, ?_⟩
    · intro w b hmask hneeds
      obtain ⟨k, hk⟩ := exists_writes hok hmask hneeds
      exact ⟨k, free_of_writes hk, holds_of_writes hok hk, (next_of_writes hok hk).2⟩
    · intro k x hx
      rcases of_holds hx with ⟨w, b, hw, rfl⟩ | ⟨-, hold⟩
      · obtain ⟨hmask, hneeds, -⟩ := writes_eq_true.mp hw
        exact .inr ⟨free_of_writes hw, w, b, hmask, hneeds, rfl⟩
      · exact .inl hold
    · intro k x hx
      exact hi.stays_or_leaves hx

end IssueUnit

end RiscvSoc
