import RiscvSoc.Lib.Fifo

/-!
# The queue of the circuit library

`Queue` from `chisel/src/main/scala/ChiselUtil.scala`: a circular buffer between two ready-valid
ports. With `pipe` it takes an item while it is full if one leaves in the same cycle; with `flow` an
item that finds it empty is shown at once, and does not go through the memory if it is taken at
once.
-/

namespace RiscvSoc

variable {α : Type} {n : ℕ} [NeZero n]

/-- `io.enq.bits` under `io.enq.valid`, and `io.deq.ready`. -/
structure QueueInput (α : Type) where
  enq : Option α
  deqReady : Bool

structure Queue (α : Type) (n : ℕ) where
  ptrs : RingPtrs n
  ram : Fin n → α

namespace Queue

variable (pipe flow : Bool) (s : Queue α n) (i : QueueInput α)

/-- `maybe_flow`. -/
def maybeFlow : Bool := flow && s.ptrs.empty

/-- `do_flow`. -/
def doFlow : Bool := s.maybeFlow flow && i.deqReady

/-- `io.enq.ready`. -/
def enqReady : Bool := !s.ptrs.full || pipe && i.deqReady

/-- `io.deq.bits` under `io.deq.valid`. -/
def deq : Option α :=
  if s.maybeFlow flow then i.enq
  else if s.ptrs.empty then none
  else some (s.ram s.ptrs.deq)

def doEnq : Bool := s.enqReady pipe i && i.enq.isSome && !s.doFlow flow i

def doDeq : Bool := i.deqReady && (s.deq flow i).isSome && !s.doFlow flow i

/-- One cycle. -/
def next : Queue α n where
  ptrs := s.ptrs.next (s.doEnq pipe flow i) (s.doDeq flow i)
  ram :=
    match i.enq with
    | some x => if s.doEnq pipe flow i then Function.update s.ram s.ptrs.enq x else s.ram
    | none => s.ram

/-- Reset: the queue is empty, and its memory holds anything. -/
def IsReset : Prop := s.ptrs = ⟨0, 0, false⟩

/-- What the queue holds, the oldest item first. -/
def held : List α := s.ptrs.held s.ram

/-- What it takes in this cycle. -/
def entered : List α := if s.enqReady pipe i then i.enq.toList else []

/-- What is taken from it. -/
def left : List α := if i.deqReady then (s.deq flow i).toList else []

variable {pipe flow s i}

theorem IsReset.held (h : s.IsReset) : s.held = [] :=
  RingPtrs.held_eq_nil (by rw [show s.ptrs = _ from h]; rfl)

theorem length_held_le : s.held.length ≤ n := by
  rw [Queue.held, RingPtrs.length_held]
  exact RingPtrs.count_le

theorem enqReady_eq : s.enqReady pipe i = (decide (s.held.length < n) || pipe && i.deqReady) := by
  have hle : s.held.length ≤ n := length_held_le
  rw [enqReady, RingPtrs.full_eq, ← RingPtrs.length_held, Queue.held] at *
  congr 1
  rw [← decide_not, decide_eq_decide]
  exact hle.lt_iff_ne.symm

omit [NeZero n] in
theorem deq_of_empty (h : s.ptrs.empty = true) : s.deq flow i = if flow then i.enq else none := by
  rw [deq, maybeFlow, h, Bool.and_true]
  rfl

omit [NeZero n] in
theorem deq_of_not_empty (h : s.ptrs.empty = false) : s.deq flow i = some (s.ram s.ptrs.deq) := by
  rw [deq, maybeFlow, h, Bool.and_false]
  rfl

/-- **What the queue shows is the oldest item**, or the one that comes in. -/
theorem deq_eq_head : s.deq flow i = (s.held ++ if flow then i.enq.toList else []).head? := by
  cases hempty : s.ptrs.empty with
  | true =>
    rw [deq_of_empty hempty, Queue.held, RingPtrs.held_eq_nil hempty]
    cases flow
    · rfl
    · cases i.enq <;> rfl
  | false =>
    obtain ⟨l, hl⟩ := RingPtrs.held_eq_cons s.ram hempty
    rw [deq_of_not_empty hempty, Queue.held, hl]
    rfl

theorem step_of_doFlow (h : s.doFlow flow i = true) :
    FifoStep s.held (s.entered pipe i) (s.left flow i) (s.next pipe flow i).held := by
  obtain ⟨hmaybe, hready⟩ := Bool.and_eq_true_iff.mp h
  have hempty : s.ptrs.empty = true := (Bool.and_eq_true_iff.mp hmaybe).2
  have hroom : s.enqReady pipe i = true := by
    have hfull : s.ptrs.full = false := by
      rw [RingPtrs.empty, Bool.and_eq_true, Bool.not_eq_true'] at hempty
      rw [RingPtrs.full, hempty.2, Bool.and_false]
    rw [enqReady, hfull]
    rfl
  have hsame : s.next pipe flow i = s := by
    have henq : s.doEnq pipe flow i = false := by rw [doEnq, h, Bool.not_true, Bool.and_false]
    have hdeq : s.doDeq flow i = false := by rw [doDeq, h, Bool.not_true, Bool.and_false]
    rw [next, henq, hdeq]
    cases i.enq <;> rfl
  rw [hsame, FifoStep, entered, left, if_pos hroom, if_pos hready, deq, if_pos hmaybe, Queue.held,
    RingPtrs.held_eq_nil hempty, List.append_nil, List.nil_append]

/-- **The circuit is a queue.** -/
theorem step : FifoStep s.held (s.entered pipe i) (s.left flow i) (s.next pipe flow i).held := by
  cases hflow : s.doFlow flow i with
  | true => exact step_of_doFlow hflow
  | false =>
    have hdoEnq : s.doEnq pipe flow i = (s.enqReady pipe i && i.enq.isSome) := by
      rw [doEnq, hflow, Bool.not_false, Bool.and_true]
    have hdoDeq : s.doDeq flow i = (i.deqReady && !s.ptrs.empty) := by
      rw [doDeq, hflow, Bool.not_false, Bool.and_true]
      cases hready : i.deqReady with
      | false => rfl
      | true =>
        rw [doFlow, hready, Bool.and_true] at hflow
        rw [deq, hflow]
        cases s.ptrs.empty <;> rfl
    have hleft : s.left flow i = if s.doDeq flow i then [s.ram s.ptrs.deq] else [] := by
      rw [left, hdoDeq]
      cases hready : i.deqReady with
      | false => rfl
      | true =>
        rw [doFlow, hready, Bool.and_true] at hflow
        rw [deq, hflow]
        cases s.ptrs.empty <;> rfl
    have henq : s.doEnq pipe flow i = true → s.ptrs.full = false ∨ s.doDeq flow i = true := by
      rw [hdoEnq, hdoDeq, enqReady]
      intro h
      obtain ⟨hready, _⟩ := Bool.and_eq_true_iff.mp h
      cases hfull : s.ptrs.full with
      | false => exact .inl rfl
      | true =>
        refine .inr ?_
        rw [hfull, Bool.not_true, Bool.false_or, Bool.and_eq_true] at hready
        have hempty : s.ptrs.empty = false := by
          rw [RingPtrs.full, Bool.and_eq_true] at hfull
          rw [RingPtrs.empty, hfull.2, Bool.not_true, Bool.and_false]
        rw [hready.2, hempty]
        rfl
    have hdeq : s.doDeq flow i = true → s.ptrs.empty = false := by
      rw [hdoDeq]
      intro h
      simpa using (Bool.and_eq_true_iff.mp h).2
    rw [hleft, entered]
    cases hin : i.enq with
    | none =>
      have hno : s.doEnq pipe flow i = false := by rw [hdoEnq, hin, Bool.and_comm]; rfl
      have hstep := RingPtrs.fifoStep s.ram (s.ram s.ptrs.deq) henq hdeq
      rw [hno] at hstep
      rw [Queue.held, Queue.held, next, hin, hno]
      simpa using hstep
    | some x =>
      have hstep := RingPtrs.fifoStep s.ram x henq hdeq
      rw [Queue.held, Queue.held, next, hin]
      rw [hin, Option.isSome_some, Bool.and_true] at hdoEnq
      rw [hdoEnq] at hstep ⊢
      exact hstep

/-! ### Runs -/

theorem left_ne_nil (hheld : s.held ≠ []) (hready : i.deqReady = true) : s.left false i ≠ [] := by
  have hdeq : s.deq false i = (s.held ++ []).head? := deq_eq_head
  obtain ⟨x, l, hl⟩ := List.exists_cons_of_ne_nil hheld
  rw [left, if_pos hready, hdeq, hl]
  exact List.cons_ne_nil x _

variable {st : ℕ → Queue α n} {lab : ℕ → QueueInput α}

section

variable (hrun : ∀ t, st (t + 1) = (st t).next pipe false (lab t))
  (hready : ∀ t, ∃ u ≥ t, (lab u).deqReady = true) {t : ℕ}
include hrun hready

/-- What waits in a queue leaves it, if the other side is ready again. -/
theorem leaves (hheld : (st t).held ≠ []) :
    ∃ u ≥ t, (st u).left false (lab u) ≠ [] := by
  have hstay (u : ℕ) (hu : (st u).held ≠ []) (hn : ¬(lab u).deqReady = true) :
      (st (u + 1)).held ≠ [] := by
    have hstep : FifoStep (st u).held ((st u).entered pipe (lab u)) ((st u).left false (lab u))
        ((st u).next pipe false (lab u)).held := step
    rw [left, if_neg hn, FifoStep, List.nil_append, ← hrun] at hstep
    rw [← hstep]
    exact List.append_ne_nil_of_left_ne_nil hu _
  obtain ⟨u, hu, hwaits, hrdy⟩ := Machine.exists_of_stays hheld hstay (hready t)
  exact ⟨u, hu, left_ne_nil hwaits hrdy⟩

theorem leaves_of_offered (hheld : (st t).held ++ (lab t).enq.toList ≠ []) :
    ∃ u ≥ t, (st u).left false (lab u) ≠ [] := by
  by_cases hempty : (st t).held = []
  · have hroom : (st t).enqReady pipe (lab t) = true := by
      rw [enqReady_eq, hempty, List.length_nil, decide_eq_true (Nat.pos_of_neZero n), Bool.true_or]
    have hstep : FifoStep (st t).held ((st t).entered pipe (lab t)) ((st t).left false (lab t))
        ((st t).next pipe false (lab t)).held := step
    rw [entered, if_pos hroom, FifoStep, ← hrun] at hstep
    by_cases hleft : (st t).left false (lab t) = []
    · rw [hleft, List.nil_append] at hstep
      obtain ⟨u, hu, hne⟩ := leaves hrun hready (hstep ▸ hheld)
      exact ⟨u, Nat.le_of_succ_le hu, hne⟩
    · exact ⟨t, Nat.le_refl t, hleft⟩
  · exact leaves hrun hready hempty

end

end Queue

end RiscvSoc
