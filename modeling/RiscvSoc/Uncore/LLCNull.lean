import RiscvSoc.Uncore.HellaQueue

/-!
# A memory port without a cache

`DRAMSideLLCNull` from `uncore/src/main/scala/llc.scala`. The memory cannot be stopped once it
answers, so a read is let through only if the response queue has room for all of its beats,
including those that other reads still have coming. A counter keeps the room that is left.

The promise the circuit builds on is that the memory sends no more beats than it was asked for.

## What is left out

The command and the write data, which go through unchanged.
-/

namespace RiscvSoc

/-- `numRequests` and `refillCycles`. Their product is the size of a `HellaQueue`. -/
structure LLCNullConf where
  numRequests : ℕ
  refillCycles : ℕ
  lgEntries : ℕ
  entries_eq : numRequests * refillCycles = hellaEntries lgEntries

variable {α : Type} {c : LLCNullConf}

namespace LLCNullConf

/-- `numEntries`. -/
abbrev numEntries (c : LLCNullConf) : ℕ := hellaEntries c.lgEntries

/-- `size`, the width of the counter. -/
def size (c : LLCNullConf) : ℕ := c.lgEntries + 1 + 1

theorem refillCycles_pos : 0 < c.refillCycles := by
  by_contra h
  have hzero := c.entries_eq
  rw [Nat.eq_zero_of_not_pos h, Nat.mul_zero] at hzero
  exact (NeZero.ne (hellaEntries c.lgEntries)) hzero.symm

theorem numEntries_lt : c.numEntries < 2 ^ c.size :=
  Nat.pow_lt_pow_right Nat.one_lt_two (Nat.lt_succ_self _)

end LLCNullConf

/-! ### The circuit -/

/-- What the circuit sees in one cycle. -/
structure LLCNullInput (α : Type) where
  /-- `io.cpu.req_cmd.bits.rw` under `io.cpu.req_cmd.valid`. -/
  reqRw : Option Bool
  memReqReady : Bool
  /-- `io.mem.resp.bits` under `io.mem.resp.valid`. -/
  memResp : Option α
  respReady : Bool
  readDuringWrite : α

/-- What the response queue sees. -/
def LLCNullInput.queueInput (i : LLCNullInput α) : HellaQueueInput α :=
  ⟨⟨i.memResp, i.respReady⟩, i.readDuringWrite⟩

structure DRAMSideLLCNull (α : Type) (c : LLCNullConf) where
  count : ℕ
  respDataq : HellaQueue α c.lgEntries

namespace DRAMSideLLCNull

variable (s : DRAMSideLLCNull α c) (i : LLCNullInput α)

def watermark : Bool := decide (c.refillCycles ≤ s.count)

/-- `cmdq_mask`. -/
def cmdqMask (rw : Bool) : Bool := rw || s.watermark

/-- The command that is handed on. -/
def memReqFire : Option Bool := i.reqRw.filter fun rw => s.cmdqMask rw && i.memReqReady

/-- `io.cpu.resp.bits` under `io.cpu.resp.valid`. -/
def resp : Option α := s.respDataq.deq (i.queueInput)

/-- A beat is consumed. -/
def inc : Bool := (s.resp i).isSome && i.respReady

/-- A read is handed on. -/
def dec : Bool := decide (s.memReqFire i = some false)

/-- The counter after a cycle, in `size` bits. -/
def nextCount : ℕ :=
  if s.inc i then
    if s.dec i then (s.count + 2 ^ c.size - (c.refillCycles - 1)) % 2 ^ c.size
    else (s.count + 1) % 2 ^ c.size
  else if s.dec i then (s.count + 2 ^ c.size - c.refillCycles) % 2 ^ c.size
  else s.count

/-- One cycle. -/
def next : DRAMSideLLCNull α c where
  count := s.nextCount i
  respDataq := s.respDataq.next (i.queueInput)

structure IsReset : Prop where
  count : s.count = c.numEntries
  respDataq : s.respDataq.IsReset

/-- The beats the memory is asked for in this cycle. -/
def newBeats : ℕ := if s.dec i then c.refillCycles else 0

end DRAMSideLLCNull

/-- What happened so far: how many beats were requested, the beats that came, and those that were
consumed. -/
structure NullLog (α : Type) where
  requested : ℕ
  beats : FifoLog α

/-- The memory sends no beat that was not requested. -/
def LLCNullInput.Ok (s : DRAMSideLLCNull α c) (log : NullLog α) (i : LLCNullInput α) : Prop :=
  i.memResp.isSome = true → log.beats.entered.length < log.requested + s.newBeats i

namespace DRAMSideLLCNull

/-- The log goes on. A beat counts as come whether the queue takes it or not. -/
def logNext (s : DRAMSideLLCNull α c) (i : LLCNullInput α) (log : NullLog α) : NullLog α where
  requested := log.requested + s.newBeats i
  beats := log.beats.note i.memResp.toList (s.respDataq.left (i.queueInput))

/-- The runs of the circuit in front of a memory that keeps its promise. -/
def machine (α : Type) (c : LLCNullConf) :
    Machine (DRAMSideLLCNull α c × NullLog α) (LLCNullInput α) :=
  ((Machine.clocked IsReset next).observe ⟨0, [], []⟩ logNext).restrict fun x i => i.Ok x.1 x.2

variable {s : DRAMSideLLCNull α c} {i : LLCNullInput α} {log : NullLog α}

/-- A read that is handed on finds room for all of its beats. -/
theorem watermark_of_dec (hdec : s.dec i = true) : c.refillCycles ≤ s.count := by
  rw [dec, decide_eq_true_eq, memReqFire, Option.filter_eq_some_iff, cmdqMask, Bool.false_or,
    Bool.and_eq_true, watermark, decide_eq_true_eq] at hdec
  exact hdec.2.1

theorem length_left : (s.respDataq.left (i.queueInput)).length = (s.inc i).toNat := by
  rw [inc, resp, HellaQueue.left]
  show (if i.respReady then _ else _ : List α).length = _
  cases i.respReady <;> cases s.respDataq.deq (i.queueInput) <;> rfl

/-- **The invariant.** The counter is the room that no requested beat is going to take. -/
structure Credit (s : DRAMSideLLCNull α c) (log : NullLog α) : Prop where
  fresh : s.respDataq.fq.Fresh
  conserves : log.beats.Conserves s.respDataq.held
  came_le : log.beats.entered.length ≤ log.requested
  count : s.count + log.requested = c.numEntries + log.beats.left.length

namespace Credit

variable (h : Credit s log)
include h

theorem came_eq : log.beats.entered.length =
    log.beats.left.length + s.respDataq.held.length := by
  rw [h.conserves, List.length_append]

theorem count_le : s.count ≤ c.numEntries := by
  have hcame := h.came_eq
  have hle := h.came_le
  have hcount := h.count
  omega

/-- **No beat is dropped**: when one comes, there is room for it. -/
theorem enqReady (hok : i.Ok s log) (hresp : i.memResp.isSome = true) :
    s.respDataq.enqReady = true := by
  have hlt := hok hresp
  have hcame := h.came_eq
  have hcount := h.count
  have hfq : s.respDataq.fq.held.length ≤ s.respDataq.held.length := by
    rw [HellaQueue.held, List.length_append]
    exact Nat.le_add_left ..
  rw [HellaQueue.enqReady, HellaFlowQueue.enqReady_eq, decide_eq_true_eq]
  show _ < c.numEntries
  rw [newBeats] at hlt
  split at hlt
  · -- a read that is handed on in this cycle has found room for all of its beats
    rename_i hdec
    have hwater := watermark_of_dec hdec
    omega
  · omega

theorem nextCount : s.nextCount i + s.newBeats i = s.count + (s.inc i).toNat := by
  have hle := h.count_le
  have hlt := c.numEntries_lt
  have hpos := c.refillCycles_pos
  have hcame := h.came_eq
  have hcount := h.count
  have hcomele := h.came_le
  have hheld : s.inc i = true → s.respDataq.held.length ≠ 0 := by
    rw [inc, resp, HellaQueue.deq_eq_head, Bool.and_eq_true]
    rintro ⟨hsome, -⟩ hzero
    rw [HellaQueue.held, List.length_append] at hzero
    rw [List.length_eq_zero_iff.mp (Nat.eq_zero_of_add_eq_zero_right hzero)] at hsome
    cases hsome
  rw [DRAMSideLLCNull.nextCount, newBeats]
  cases hinc : s.inc i with
  | false =>
    cases hdec : s.dec i with
    | false => rfl
    | true =>
      have hwater := watermark_of_dec hdec
      simp only [Bool.false_eq_true, if_true, if_false, Bool.toNat_false]
      rw [show s.count + 2 ^ c.size - c.refillCycles =
        s.count - c.refillCycles + 2 ^ c.size by omega, Nat.add_mod_right,
          Nat.mod_eq_of_lt (by omega)]
      omega
  | true =>
    have hheld := hheld hinc
    cases hdec : s.dec i with
    | false =>
      simp only [Bool.false_eq_true, if_true, if_false, Bool.toNat_true]
      rw [Nat.mod_eq_of_lt (by omega)]
    | true =>
      have hwater := watermark_of_dec hdec
      simp only [if_true, Bool.toNat_true]
      rw [show s.count + 2 ^ c.size - (c.refillCycles - 1) =
        s.count - (c.refillCycles - 1) + 2 ^ c.size by omega, Nat.add_mod_right,
        Nat.mod_eq_of_lt (by omega)]
      omega

/-- **One cycle keeps the invariant.** -/
theorem next (hok : i.Ok s log) : Credit (s.next i) (s.logNext i log) where
  fresh := HellaFlowQueue.Fresh.next
  conserves := by
    refine h.conserves.note ?_
    have hentered : s.respDataq.entered (i.queueInput) = i.memResp.toList := by
      rw [HellaQueue.entered]
      cases hresp : i.memResp with
      | none =>
        rw [show (i.queueInput).enq = none from hresp]
        exact ite_self _
      | some x =>
        rw [h.enqReady hok (by rw [hresp]; rfl), show (i.queueInput).enq = some x from hresp]
        rfl
    rw [← hentered]
    exact HellaQueue.step h.fresh
  came_le := by
    show (log.beats.entered ++ i.memResp.toList).length ≤ log.requested + s.newBeats i
    have hle := h.came_le
    have hlt := hok
    rw [LLCNullInput.Ok] at hlt
    rw [List.length_append]
    cases hresp : i.memResp with
    | none => exact Nat.le_add_right_of_le hle
    | some x =>
      rw [hresp] at hlt
      exact hlt rfl
  count := by
    have hcount := h.count
    have hnext := h.nextCount (i := i)
    show s.nextCount i + (log.requested + s.newBeats i) =
      c.numEntries + (log.beats.left ++ s.respDataq.left (i.queueInput)).length
    rw [List.length_append, length_left]
    omega

end Credit

theorem reachable_credit (h : (machine α c).Reachable (s, log)) : Credit s log := by
  refine Machine.invariant (I := fun x : DRAMSideLLCNull α c × NullLog α => Credit x.1 x.2) ?_ ?_
    (s, log) h
  · rintro ⟨s, log⟩ ⟨hs, rfl⟩
    exact ⟨hs.respDataq.fq.fresh, hs.respDataq.held.symm, Nat.zero_le _, hs.count⟩
  · rintro ⟨s, log⟩ i ⟨s', log'⟩ _ hcredit ⟨hok, rfl, rfl⟩
    exact hcredit.next hok

/-- **The credit is exact.** In every reachable state no more beats are consumed than requested,
those that are requested and not yet consumed fit in the response queue, and the counter is the room
they leave. The beats are consumed as they came, and one that comes finds room. -/
theorem credit_exact (α : Type) (c : LLCNullConf) :
    (∀ s log, (machine α c).Reachable (s, log) →
      log.beats.left.length ≤ log.requested ∧
      log.requested - log.beats.left.length ≤ c.numEntries ∧
      s.count = c.numEntries - (log.requested - log.beats.left.length) ∧
      log.beats.entered = log.beats.left ++ s.respDataq.held) ∧
    ∀ s log (i : LLCNullInput α), (machine α c).Reachable (s, log) → i.Ok s log →
      i.memResp.isSome = true → s.respDataq.enqReady = true := by
  refine ⟨fun s log h => ?_, fun s log i h hok hresp => (reachable_credit h).enqReady hok hresp⟩
  have hs := reachable_credit h
  have hcame := hs.came_eq
  have hle := hs.came_le
  have hcount := hs.count
  exact ⟨by omega, by omega, by omega, hs.conserves⟩

end DRAMSideLLCNull

end RiscvSoc
