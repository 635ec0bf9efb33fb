import RiscvSoc.Lib.Queue

/-!
# Queues in a synchronous memory

`HellaFlowQueue` and `HellaQueue` from `uncore/src/main/scala/llc.scala`. The memory of
`HellaFlowQueue` is read one cycle ahead: while an item is shown and can be taken, the next one is
read, so that it can be shown in the next cycle. An item that finds the queue empty is shown at
once. `HellaQueue` puts a register behind the exit.

The number of entries is a power of two and more than one, which the source requires.

## The memory

What a read delivers is what the place held when it was read. If the place is written in the same
cycle, the read delivers anything (`readDuringWrite`); that nobody looks at it then is part of what
is proved.
-/

namespace RiscvSoc

open RingPtrs

variable {α : Type} {k : ℕ}

/-- The number of entries. -/
abbrev hellaEntries (k : ℕ) : ℕ := 2 ^ (k + 1)

theorem two_le_hellaEntries : 2 ≤ hellaEntries k := Nat.le_self_pow k.succ_ne_zero 2

instance neZero_hellaEntries : NeZero (hellaEntries k) := ⟨(Nat.two_pow_pos (k + 1)).ne'⟩

/-- What the two ports see, and what a word reads as while it is written. -/
structure HellaQueueInput (α : Type) extends QueueInput α where
  readDuringWrite : α

/-! ### `HellaFlowQueue` -/

structure HellaFlowQueue (α : Type) (k : ℕ) where
  ptrs : RingPtrs (hellaEntries k)
  ram : Fin (hellaEntries k) → α
  /-- What the memory has read at `ram_addr`. -/
  ramOut : α
  ramOutValid : Bool

namespace HellaFlowQueue

variable (s : HellaFlowQueue α k) (i : HellaQueueInput α)

def empty : Bool := s.ptrs.empty

def full : Bool := s.ptrs.full

def atLeastTwo : Bool := s.full || decide (2 ≤ (s.ptrs.enq - s.ptrs.deq).val)

def doFlow : Bool := s.empty && i.deqReady

/-- `io.enq.ready`. -/
def enqReady : Bool := !s.full

/-- `io.deq.bits` under `io.deq.valid`. -/
def deq : Option α :=
  if s.empty then i.enq else if s.ramOutValid then some s.ramOut else none

def doEnq : Bool := s.enqReady && i.enq.isSome && !s.doFlow i

def doDeq : Bool := i.deqReady && (s.deq i).isSome && !s.doFlow i

/-- The memory is read in this cycle. -/
def reads : Bool := i.deqReady && (s.atLeastTwo || !(s.deq i).isSome && !s.empty)

/-- The new `ram_addr`. -/
def ramAddr : Fin (hellaEntries k) := if (s.deq i).isSome then s.ptrs.deq + 1 else s.ptrs.deq

/-- One cycle. -/
def next : HellaFlowQueue α k where
  ptrs := s.ptrs.next (s.doEnq i) (s.doDeq i)
  ram :=
    match i.enq with
    | some x => if s.doEnq i then Function.update s.ram s.ptrs.enq x else s.ram
    | none => s.ram
  ramOut :=
    if s.reads i then
      if s.doEnq i && decide (s.ptrs.enq = s.ramAddr i) then i.readDuringWrite
      else s.ram (s.ramAddr i)
    else s.ramOut
  ramOutValid := s.reads i

/-- Reset: the queue is empty. `ram_out_valid` has no reset value, and the memory none either. -/
def IsReset : Prop := s.ptrs = ⟨0, 0, false⟩

def held : List α := s.ptrs.held s.ram

/-- What the queue takes in in this cycle. -/
def entered : List α := if s.enqReady then i.enq.toList else []

/-- What is taken from it. -/
def left : List α := if i.deqReady then (s.deq i).toList else []

/-- **The invariant.** What was read is the oldest item. -/
def Fresh : Prop := s.empty = false → s.ramOutValid = true → s.ramOut = s.ram s.ptrs.deq

variable {s i}

theorem IsReset.empty (h : s.IsReset) : s.empty = true := by
  rw [HellaFlowQueue.empty, show s.ptrs = _ from h]
  rfl

theorem IsReset.fresh (h : s.IsReset) : s.Fresh := by
  intro hno
  rw [h.empty] at hno
  cases hno

theorem length_held : s.held.length = s.ptrs.count := RingPtrs.length_held

theorem length_held_le : s.held.length ≤ hellaEntries k := by
  rw [length_held]
  exact count_le

theorem enqReady_eq : s.enqReady = decide (s.held.length < hellaEntries k) := by
  have hle : s.held.length ≤ hellaEntries k := length_held_le
  rw [enqReady, full, full_eq, ← length_held, ← decide_not, decide_eq_decide]
  exact hle.lt_iff_ne.symm

theorem held_of_empty (h : s.empty = true) : s.held = [] := held_eq_nil h

theorem atLeastTwo_eq : s.atLeastTwo = decide (2 ≤ s.ptrs.count) := by
  have htwo : 2 ≤ hellaEntries k := two_le_hellaEntries
  rw [atLeastTwo, full, RingPtrs.full, RingPtrs.count]
  by_cases h : s.ptrs.enq = s.ptrs.deq
  · cases s.ptrs.maybeFull <;> simp [h, htwo]
  · simp [h]

/-- The read is ahead by the item that leaves, and there is an item there. -/
theorem ramAddr_eq (h : s.reads i = true) :
    s.ramAddr i = ringPlace s.ptrs.deq (s.doDeq i).toNat ∧ (s.doDeq i).toNat < s.ptrs.count := by
  obtain ⟨hready, hitem⟩ := Bool.and_eq_true_iff.mp h
  rw [atLeastTwo_eq, Bool.or_eq_true, Bool.and_eq_true, decide_eq_true_eq] at hitem
  have hempty : s.empty = false := by
    rcases hitem with htwo | ⟨_, hno⟩
    · rw [empty, empty_eq, decide_eq_false_iff_not]
      omega
    · simpa using hno
  have hpos : s.ptrs.count ≠ 0 := by
    rw [empty, empty_eq, decide_eq_false_iff_not] at hempty
    exact hempty
  have hdoDeq : s.doDeq i = (s.deq i).isSome := by
    rw [doDeq, doFlow, hready, hempty]
    simp
  rw [ramAddr, hdoDeq]
  cases hsome : (s.deq i).isSome with
  | false => exact ⟨(ringPlace_zero _).symm, Nat.pos_of_ne_zero hpos⟩
  | true =>
    rcases hitem with htwo | ⟨hno, _⟩
    · refine ⟨?_, htwo⟩
      show s.ptrs.deq + 1 = ringPlace s.ptrs.deq (0 + 1)
      rw [ringPlace_succ, ringPlace_zero]
    · rw [hsome] at hno
      cases hno

theorem doDeq_of_empty (h : s.empty = true) : s.doDeq i = false := by
  rw [doDeq, doFlow, h]
  cases i.deqReady <;> simp

/-- **What is read one cycle is the oldest item in the next.** -/
theorem Fresh.next : (s.next i).Fresh := by
  intro _ hvalid
  have hreads : s.reads i = true := hvalid
  obtain ⟨haddr, hlt⟩ := ramAddr_eq hreads
  have hdeq : (s.next i).ptrs.deq = s.ramAddr i := by
    rw [haddr]
    show (if s.doDeq i then s.ptrs.deq + 1 else s.ptrs.deq) = _
    cases s.doDeq i with
    | false => exact (ringPlace_zero _).symm
    | true => exact (ringPlace_zero _).symm.trans (ringPlace_succ _ 0).symm
  have hother : s.doEnq i = true → s.ptrs.enq ≠ s.ramAddr i := by
    intro henq heq
    have hroom : s.ptrs.count ≠ hellaEntries k := by
      rw [doEnq, enqReady, full, full_eq] at henq
      simp only [Bool.and_eq_true, Bool.not_eq_true', decide_eq_false_iff_not] at henq
      exact henq.1.1
    have hle : s.ptrs.count ≤ hellaEntries k := count_le
    rw [enq_eq, haddr] at heq
    exact hlt.ne' (ringPlace_inj (by omega) (by omega) heq)
  have hout : (s.next i).ramOut = s.ram (s.ramAddr i) := by
    show (if s.reads i then _ else _) = _
    rw [if_pos hreads]
    refine if_neg ?_
    rw [Bool.and_eq_true, decide_eq_true_eq]
    rintro ⟨henq, heq⟩
    exact hother henq heq
  rw [hout, hdeq]
  show _ = (match i.enq with
    | some x => if s.doEnq i then Function.update s.ram s.ptrs.enq x else s.ram
    | none => s.ram) (s.ramAddr i)
  cases i.enq with
  | none => rfl
  | some x =>
    dsimp only
    by_cases henq : s.doEnq i = true
    · rw [if_pos henq, Function.update_of_ne (hother henq).symm]
    · rw [if_neg henq]

/-- **What the queue shows is the oldest item**, never something that was read before. -/
theorem head_of_deq (hs : s.Fresh) {x : α} (h : s.deq i = some x) :
    (s.held ++ i.enq.toList).head? = some x := by
  rw [deq] at h
  cases hempty : s.empty with
  | true =>
    rw [hempty, if_pos rfl] at h
    rw [held_of_empty hempty, h]
    rfl
  | false =>
    rw [hempty, if_neg (by simp)] at h
    obtain ⟨hvalid, hx⟩ := Option.ite_none_right_eq_some.mp h
    obtain ⟨l, hl⟩ := held_eq_cons s.ram hempty
    rw [held, hl, ← hx, hs hempty hvalid]
    rfl

/-- **The circuit is a queue.** -/
theorem step (hs : s.Fresh) : FifoStep s.held (s.entered i) (s.left i) (s.next i).held := by
  cases hflow : s.doFlow i with
  | true =>
    -- an item that flows through leaves no trace
    obtain ⟨hempty, hready⟩ := Bool.and_eq_true_iff.mp hflow
    have hroom : s.enqReady = true := by
      rw [enqReady_eq, held_of_empty hempty]
      exact decide_eq_true (Nat.two_pow_pos _)
    have hsame : (s.next i).held = s.held := by
      have henq : s.doEnq i = false := by rw [doEnq, hflow, Bool.not_true, Bool.and_false]
      have hdeq : s.doDeq i = false := by rw [doDeq, hflow, Bool.not_true, Bool.and_false]
      rw [held, next, henq, hdeq]
      cases i.enq <;> rfl
    rw [hsame, FifoStep, entered, left, if_pos hroom, if_pos hready, deq, if_pos hempty,
      held_of_empty hempty, List.append_nil, List.nil_append]
  | false =>
    have hdoEnq : s.doEnq i = (s.enqReady && i.enq.isSome) := by
      rw [doEnq, hflow, Bool.not_false, Bool.and_true]
    have henq : s.doEnq i = true → s.ptrs.full = false ∨ s.doDeq i = true := by
      rw [hdoEnq, enqReady, full]
      intro h
      exact .inl (by simpa using (Bool.and_eq_true_iff.mp h).1)
    have hdeq : s.doDeq i = true → s.ptrs.empty = false := by
      intro h
      rw [← Bool.not_eq_true]
      intro hempty
      rw [doDeq_of_empty hempty] at h
      cases h
    have hleft : s.left i = if s.doDeq i then [s.ram s.ptrs.deq] else [] := by
      rw [left, doDeq, hflow, Bool.not_false, Bool.and_true]
      cases hready : i.deqReady with
      | false => rfl
      | true =>
        have hempty : s.empty = false := by
          rwa [doFlow, hready, Bool.and_true] at hflow
        rw [deq, hempty]
        cases hvalid : s.ramOutValid with
        | false => rfl
        | true => exact congrArg (fun x => [x]) (hs hempty hvalid)
    rw [hleft, entered]
    cases hin : i.enq with
    | none =>
      have hno : s.doEnq i = false := by rw [hdoEnq, hin, Bool.and_comm]; rfl
      have hstep := fifoStep s.ram (s.ram s.ptrs.deq) henq hdeq
      rw [hno] at hstep
      rw [held, held, next, hin, hno]
      simpa using hstep
    | some x =>
      have hstep := fifoStep s.ram x henq hdeq
      rw [held, held, next, hin]
      rw [hin, Option.isSome_some, Bool.and_true] at hdoEnq
      rw [hdoEnq] at hstep ⊢
      exact hstep

/-- A consumer that is ready is not kept waiting: an item leaves, or one is shown in the next
cycle. -/
theorem left_or_shown (hs : s.Fresh) (hheld : s.held ≠ []) (hready : i.deqReady = true) :
    s.left i ≠ [] ∨ ∀ i', ((s.next i).deq i').isSome = true := by
  have hempty : s.empty = false := by
    rw [← Bool.not_eq_true]
    exact fun h => hheld (held_of_empty h)
  cases hdeq : s.deq i with
  | some x =>
    refine .inl ?_
    rw [left, if_pos hready, hdeq]
    exact List.cons_ne_nil _ _
  | none =>
    refine .inr fun i' => ?_
    have hreads : s.reads i = true := by
      rw [reads, hready, hdeq, hempty]
      simp
    have hleft : s.left i = [] := by
      rw [left, hdeq]
      exact ite_self _
    have hstep : s.held ++ s.entered i = s.left i ++ (s.next i).held := step hs
    have hrest : (s.next i).empty = false := by
      rw [← Bool.not_eq_true]
      intro h
      rw [hleft, held_of_empty h] at hstep
      exact hheld (List.append_eq_nil_iff.mp hstep).1
    rw [deq, hrest, if_neg (by simp), show (s.next i).ramOutValid = true from hreads]
    rfl

end HellaFlowQueue

/-! ### `HellaQueue` -/

/-- The entries of the output stage. -/
def outEntries : ℕ := 1

instance neZero_outEntries : NeZero outEntries := ⟨Nat.one_ne_zero⟩

structure HellaQueue (α : Type) (k : ℕ) where
  fq : HellaFlowQueue α k
  /-- `Queue(fq.io.deq, 1, pipe = true)`. -/
  out : Queue α outEntries

namespace HellaQueue

variable (s : HellaQueue α k) (i : HellaQueueInput α)

/-- What `fq` sees: the output stage takes an item if it is empty or is being emptied. -/
def fqInput : HellaQueueInput α :=
  { i with deqReady := s.out.enqReady true i.toQueueInput }

/-- What the output stage sees. -/
def outInput : QueueInput α where
  enq := s.fq.deq (s.fqInput i)
  deqReady := i.deqReady

/-- `io.enq.ready`. -/
def enqReady : Bool := s.fq.enqReady

/-- `io.deq.bits` under `io.deq.valid`. -/
def deq : Option α := s.out.deq false (s.outInput i)

/-- One cycle. -/
def next : HellaQueue α k where
  fq := s.fq.next (s.fqInput i)
  out := s.out.next true false (s.outInput i)

structure IsReset : Prop where
  fq : s.fq.IsReset
  out : s.out.IsReset

/-- What the queue holds: what is in the output stage is the oldest. -/
def held : List α := s.out.held ++ s.fq.held

/-- What the queue takes in in this cycle. -/
def entered : List α := if s.enqReady then i.enq.toList else []

/-- What is taken from it. -/
def left : List α := if i.deqReady then (s.deq i).toList else []

variable {s i}

theorem deq_eq_head : s.deq i = s.out.held.head? := by
  rw [deq, Queue.deq_eq_head, if_neg (by simp), List.append_nil]

/-- **The two in a row are a queue.** -/
theorem step (hs : s.fq.Fresh) : FifoStep s.held (s.entered i) (s.left i) (s.next i).held := by
  have first : FifoStep s.fq.held (s.entered i) (s.fq.left (s.fqInput i))
      (s.next i).fq.held := HellaFlowQueue.step (i := s.fqInput i) hs
  have second : FifoStep s.out.held (s.out.entered true (s.outInput i)) (s.left i)
      (s.next i).out.held := Queue.step
  exact first.series second

/-! ### Whole runs -/

/-- The runs of the queue, with what entered and what left. -/
def machine (α : Type) (k : ℕ) : Machine (HellaQueue α k × FifoLog α) (HellaQueueInput α) :=
  (Machine.clocked IsReset next).observe ⟨[], []⟩ fun s i log =>
    log.note (s.entered i) (s.left i)

theorem reachable_fresh (h : (Machine.clocked IsReset next).Reachable s) : s.fq.Fresh := by
  refine Machine.invariant (I := fun s : HellaQueue α k => s.fq.Fresh) ?_ ?_ s h
  · intro s hs
    exact hs.fq.fresh
  · rintro s i _ _ _ rfl
    exact HellaFlowQueue.Fresh.next

theorem IsReset.held (h : s.IsReset) : s.held = [] := by
  rw [HellaQueue.held, h.out.held, HellaFlowQueue.held_of_empty h.fq.empty]
  rfl

theorem reachable_conserves {log : FifoLog α} (h : (machine α k).Reachable (s, log)) :
    log.Conserves s.held :=
  Machine.fifo (fun _ => reachable_fresh) (fun _ => IsReset.held) (fun _ _ => step) (s, log) h

theorem length_held_le : s.held.length ≤ hellaEntries k + 1 := by
  have hfq := s.fq.length_held_le
  have hout : s.out.held.length ≤ 1 := Queue.length_held_le
  rw [held, List.length_append]
  omega

end HellaQueue

namespace HellaFlowQueue

/-- The runs of the queue without the register, with what entered and what left. -/
def machine (α : Type) (k : ℕ) :
    Machine (HellaFlowQueue α k × FifoLog α) (HellaQueueInput α) :=
  (Machine.clocked IsReset next).observe ⟨[], []⟩ fun s i log =>
    log.note (s.entered i) (s.left i)

variable {s : HellaFlowQueue α k}

theorem reachable_fresh (h : (Machine.clocked IsReset next).Reachable s) : s.Fresh := by
  refine Machine.invariant (I := fun s : HellaFlowQueue α k => s.Fresh) ?_ ?_ s h
  · intro s hs
    exact hs.fresh
  · rintro s i _ _ _ rfl
    exact Fresh.next

theorem reachable_conserves {log : FifoLog α} (h : (machine α k).Reachable (s, log)) :
    log.Conserves s.held :=
  Machine.fifo (fun _ => reachable_fresh) (fun _ hs => held_of_empty hs.empty) (fun _ _ => step)
    (s, log) h

end HellaFlowQueue

/-- **The two queues refine a queue without pointers.** In every reachable state what entered so far
is what left so far followed by what is held. The number of items held is bounded, by the entries
and, for `HellaQueue`, the output stage; an item is taken in exactly if there is room. What is shown
at the exit is the oldest item, whatever the memory delivered before. A consumer that is ready gets
an item now or is shown one in the next cycle, as long as there is one. -/
theorem hellaQueues_fifo (α : Type) (k : ℕ) :
    (∀ s log, (HellaFlowQueue.machine α k).Reachable (s, log) →
      log.entered = log.left ++ s.held ∧
      s.held.length ≤ hellaEntries k ∧
      s.enqReady = decide (s.held.length < hellaEntries k) ∧
      ∀ i, (∀ x, s.deq i = some x → (s.held ++ i.enq.toList).head? = some x) ∧
        (s.held ≠ [] → i.deqReady = true →
          s.left i ≠ [] ∨ ∀ i', ((s.next i).deq i').isSome = true)) ∧
    ∀ s log, (HellaQueue.machine α k).Reachable (s, log) →
      log.entered = log.left ++ s.held ∧
      s.held.length ≤ hellaEntries k + 1 ∧
      s.enqReady = decide (s.fq.held.length < hellaEntries k) ∧
      ∀ i, s.deq i = s.out.held.head? ∧
        (s.fq.held ≠ [] → (s.out.held = [] ∨ i.deqReady = true) →
          s.fq.left (s.fqInput i) ≠ [] ∨ ∀ i', ((s.next i).fq.deq i').isSome = true) := by
  refine ⟨fun s log h => ?_, fun s log h => ?_⟩
  · have hs := HellaFlowQueue.reachable_fresh h.of_observe
    refine ⟨HellaFlowQueue.reachable_conserves h, s.length_held_le, s.enqReady_eq, fun i => ?_⟩
    exact ⟨fun _ => HellaFlowQueue.head_of_deq hs, HellaFlowQueue.left_or_shown hs⟩
  · have hs := HellaQueue.reachable_fresh h.of_observe
    refine ⟨HellaQueue.reachable_conserves h, s.length_held_le, s.fq.enqReady_eq, fun i => ?_⟩
    refine ⟨HellaQueue.deq_eq_head, fun hheld hroom => ?_⟩
    have hready : (s.fqInput i).deqReady = true := by
      show s.out.enqReady true i.toQueueInput = true
      rw [Queue.enqReady_eq, Bool.true_and, Bool.or_eq_true, decide_eq_true_eq]
      exact hroom.imp_left fun hnil => by rw [hnil]; exact Nat.zero_lt_one
    exact HellaFlowQueue.left_or_shown hs hheld hready

end RiscvSoc
