import RiscvSoc.Boom.Rob
import RiscvSoc.Lib.FirstFit
import RiscvSoc.Lib.Machine
import RiscvSoc.Lib.PortSelect

/-!
# The issue unit

`IntegerIssueSlot` and `IssueUnit` from `boom/src/main/scala/issue.scala`, one clock cycle at a
time. Dispatched micro-ops wait in slots until their operands are ready; a store waits twice, once
for its address and once for its data. A dispatched micro-op is offered two slots, whether it needs
them or not, so the columns of the search are the lanes of the dispatch bundle, twice.

The source leaves the choice of the micro-ops that ask with high priority to its readers, so it is a
parameter.

## What is left out

The fields of a micro-op that are only passed on, and the debug ports.
-/

namespace RiscvSoc

variable {c : BOOMConf} {N n W : ℕ}

/-! ### Micro-ops -/

/-- `uopc`, as far as the unit looks at it; `isMemSpecial` and `isSret` are fields of their own. -/
inductive IssueUopc
  | sta
  | std
  | fencei
  | other
  deriving DecidableEq, Repr

structure IssueUop (c : BOOMConf) extends RobUop c where
  uopc : IssueUopc
  inst : ℕ
  fuCode : ℕ
  syscall : Bool

/-- `BUBBLE`. -/
def bubble : ℕ := 0x4033

namespace IssueUop

variable (u : IssueUop c)

/-- What a slot makes of a micro-op that is written to it. -/
def half (is2ndUop : Bool) : IssueUop c :=
  if u.uopc = .sta then
    if is2ndUop then { u with uopc := .std, lrs1Rtype := .x, lrs2Rtype := .fix }
    else { u with lrs1Rtype := .fix, lrs2Rtype := .x }
  else u

/-- A micro-op needs a slot, or a second one. -/
def needs (is2ndUop : Bool) : Bool :=
  if is2ndUop then decide (u.uopc = .sta) && !u.exception
  else !u.exception && !u.isSret && !u.syscall && !u.isMemSpecial && decide (u.uopc ≠ .fencei)

end IssueUop

/-! ### `IntegerIssueSlot` -/

structure IssueSlot (c : BOOMConf) where
  slotValid : Bool
  slotP1 : Bool
  slotP2 : Bool
  slotUop : IssueUop c

/-- What a slot sees in one cycle. -/
structure IssueSlotInput (c : BOOMConf) where
  issue : Bool
  kill : Bool
  /-- `inUop` and `is_2nd_uop`, if `in_wen` is up. -/
  inUop : Option (IssueUop c × Bool)
  brinfo : Option (BrResolutionInfo c)
  /-- `wakeup_dsts` of the ports whose `wakeup_vals` is up. -/
  wakeups : List (PReg c)

namespace IssueSlot

variable (s : IssueSlot c) (i : IssueSlotInput c)

/-- `slotUop` before the last two assignments to it. -/
def entered : IssueUop c :=
  if i.kill || i.issue then { s.slotUop with inst := bubble }
  else match i.inUop with
    | some (u, b) => u.half b
    | none => s.slotUop

def nextUop : IssueUop c :=
  let u := if isKilledByBranch i.brinfo s.slotUop.brMask then { s.entered i with inst := bubble }
    else s.entered i
  if i.inUop.isSome then u else { u with brMask := getNewBrMask i.brinfo s.slotUop.brMask }

/-- One cycle. -/
def next : IssueSlot c where
  slotValid :=
    if isKilledByBranch i.brinfo s.slotUop.brMask then false
    else if i.kill || i.issue then false
    else i.inUop.isSome || s.slotValid
  slotP1 :=
    match i.inUop with
    | some (u, b) => if u.uopc = .sta ∧ b = true then true else !u.prs1Busy
    | none => s.slotP1 || decide (s.slotUop.pop1 ∈ i.wakeups)
  slotP2 :=
    match i.inUop with
    | some (u, b) => if u.uopc = .sta ∧ b = false then true else !u.prs2Busy
    | none => s.slotP2 || decide (s.slotUop.pop2 ∈ i.wakeups)
  slotUop := s.nextUop i

end IssueSlot

/-! ### `IssueUnit` -/

structure IssueUnit (c : BOOMConf) (N : ℕ) where
  slots : Fin N → IssueSlot c

/-- What the unit sees in one cycle. -/
structure IssueInput (c : BOOMConf) (n W : ℕ) where
  disMask : Fin n → Bool
  disUops : Fin n → IssueUop c
  fuTypes : Fin W → ℕ
  brinfo : Option (BrResolutionInfo c)
  flushPipeline : Bool
  wakeups : List (PReg c)

namespace IssueUnit

variable (hp : IssueUop c → Bool) (s : IssueUnit c N) (i : IssueInput c n W)

/-- The column of a lane, and its second one. -/
def column (w : Fin n) (is2ndUop : Bool) : Fin (2 * n) :=
  ⟨2 * w + is2ndUop.toNat, by have := Bool.toNat_lt is2ndUop; omega⟩

/-- The slot each column is offered: `allocated`, as the option around it. -/
def entry (n : ℕ) : Fin (2 * n) → Option (Fin N) :=
  FirstFit.offers (fun k => !(s.slots k).slotValid) (List.finRange N)

def disInstCanProceed (w : Fin n) : Bool :=
  (s.entry n (column w false)).isSome && (s.entry n (column w true)).isSome

/-- `temp_1stuop_val` and `temp_2nduop_val` of slot `k`. -/
def writes (k : Fin N) (w : Fin n) (is2ndUop : Bool) : Bool :=
  i.disMask w && (i.disUops w).needs is2ndUop && decide (s.entry n (column w is2ndUop) = some k)

/-- `entry_wen_oh`. At most one lane is up, so `Mux1H` selects it. -/
def entryWenOh (k : Fin N) (w : Fin n) : Bool := s.writes i k w false || s.writes i k w true

/-- The lane slot `k` is written for, and `entry_wen_2nd`. -/
def writer (k : Fin N) : Option (Fin n × Bool) :=
  (priorityEncoder (s.entryWenOh i k)).map fun w => (w, orR fun v => s.writes i k v true)

def inUop (k : Fin N) : Option (IssueUop c × Bool) :=
  (s.writer i k).map fun x => (i.disUops x.1, x.2)

def request (k : Fin N) : Bool :=
  (s.slots k).slotValid && (s.slots k).slotP1 && (s.slots k).slotP2 && !i.flushPipeline

def requestHp (k : Fin N) : Bool := s.request i k && hp (s.slots k).slotUop

/-- `can_allocate`: port `w` supports the function code of slot `k`. -/
def supports (w : Fin W) (k : Fin N) : Bool :=
  decide ((s.slots k).slotUop.fuCode &&& i.fuTypes w ≠ 0)

/-- The micro-ops that are issued. -/
def selection : PortSelect N W :=
  PortSelect.select (s.supports i) (s.request i) (s.requestHp hp i)

/-- `iss_uops`, and `iss_valids` as the option around it. -/
def issUops (w : Fin W) : Option (IssueUop c) :=
  ((s.selection hp i).iss w).map fun k => (s.slots k).slotUop

def slotInput (k : Fin N) : IssueSlotInput c where
  issue := (s.selection hp i).issue k
  kill := i.flushPipeline
  inUop := s.inUop i k
  brinfo := i.brinfo
  wakeups := i.wakeups

/-- One cycle. -/
def next : IssueUnit c N := ⟨fun k => (s.slots k).next (s.slotInput hp i k)⟩

def IsReset (s : IssueUnit c N) : Prop := ∀ k, (s.slots k).slotValid = false

/-- The pipeline behind the unit is squashed: `rename_stage.io.kill`. -/
def squashes : Bool := i.flushPipeline || i.brinfo.any (·.mispredict)

/-- `ren_mask`: only what can proceed is dispatched, and nothing in a cycle that squashes. -/
def Dispatches : Prop :=
  ∀ w, i.disMask w = true → s.disInstCanProceed w = true ∧ squashes i = false

/-! ### Writing to slots -/

variable {hp s i}

theorem column_inj {v w : Fin n} {b b' : Bool} (h : column v b = column w b') : v = w ∧ b = b' := by
  have hval : 2 * (v : ℕ) + b.toNat = 2 * w + b'.toNat := Fin.mk.inj_iff.mp h
  cases b <;> cases b' <;> simp only [Bool.toNat_false, Bool.toNat_true] at hval
  · exact ⟨Fin.ext (by omega), rfl⟩
  · omega
  · omega
  · exact ⟨Fin.ext (by omega), rfl⟩

variable {k : Fin N} {w : Fin n} {b : Bool}

theorem writes_eq_true : s.writes i k w b = true ↔
    i.disMask w = true ∧ (i.disUops w).needs b = true ∧ s.entry n (column w b) = some k := by
  rw [writes, Bool.and_eq_true, Bool.and_eq_true, decide_eq_true_eq, and_assoc]

theorem writes_unique {v w : Fin n} {b b' : Bool} (hv : s.writes i k v b = true)
    (hw : s.writes i k w b' = true) : v = w ∧ b = b' := by
  rw [writes_eq_true] at hv hw
  exact column_inj (FirstFit.offers_inj (List.nodup_finRange N) hv.2.2 hw.2.2)

theorem free_of_writes (h : s.writes i k w b = true) :
    (s.slots k).slotValid = false := by
  obtain ⟨-, hfree⟩ := FirstFit.of_offers (writes_eq_true.mp h).2.2
  exact Bool.not_eq_true' _ ▸ hfree

/-- A half that is dispatched and needs a slot is written to one. -/
theorem exists_writes (hok : s.Dispatches i) (hmask : i.disMask w = true)
    (hneeds : (i.disUops w).needs b = true) : ∃ k, s.writes i k w b = true := by
  obtain ⟨hproceed, -⟩ := hok w hmask
  obtain ⟨hfirst, hsecond⟩ := Bool.and_eq_true_iff.mp hproceed
  have hsome : (s.entry n (column w b)).isSome = true := by
    cases b
    · exact hfirst
    · exact hsecond
  obtain ⟨k, hk⟩ := Option.isSome_iff_exists.mp hsome
  exact ⟨k, writes_eq_true.mpr ⟨hmask, hneeds, hk⟩⟩

theorem writer_of_writes (h : s.writes i k w b = true) :
    s.writer i k = some (w, b) := by
  have hlane (v : Fin n) (hv : s.entryWenOh i k v = true) : v = w := by
    rcases Bool.or_eq_true_iff.mp hv with hv | hv <;> exact (writes_unique hv h).1
  have hw : s.entryWenOh i k w = true := by
    rw [entryWenOh, Bool.or_eq_true]
    cases b
    · exact .inl h
    · exact .inr h
  have henc : priorityEncoder (s.entryWenOh i k) = some w := by
    refine priorityEncoder_eq_some.mpr ⟨hw, ?_⟩
    intro v hv
    rw [← Bool.not_eq_true]
    intro hv'
    rw [hlane v hv'] at hv
    exact lt_irrefl w hv
  have h2nd : (orR fun v => s.writes i k v true) = b := by
    rw [Bool.eq_iff_iff, orR_eq_true]
    constructor
    · rintro ⟨v, hv⟩
      exact (writes_unique h hv).2
    · rintro rfl
      exact ⟨w, h⟩
  rw [writer, henc, h2nd]
  rfl

theorem writer_eq_some :
    s.writer i k = some (w, b) ↔ s.writes i k w b = true := by
  refine ⟨?_, writer_of_writes⟩
  intro h
  obtain ⟨v, hv, -⟩ := Option.map_eq_some_iff.mp h
  have hb : ∃ b', s.writes i k v b' = true := by
    rcases Bool.or_eq_true_iff.mp (priorityEncoder_some hv) with hb | hb <;> exact ⟨_, hb⟩
  obtain ⟨b', hb'⟩ := hb
  cases h.symm.trans (writer_of_writes hb')
  exact hb'

/-! ### Issuing -/

theorem selection_satisfies : PortSelect.Satisfies (s.supports i) (s.request i)
    (List.finRange W) (s.selection hp i) := by
  refine PortSelect.select_satisfies ?_
  intro k h
  exact (Bool.and_eq_true_iff.mp h).1

theorem request_of_issue (h : (s.selection hp i).issue k = true) :
    s.request i k = true := by
  obtain ⟨w, hw⟩ := (selection_satisfies.issue_iff k).mp h
  exact (selection_satisfies.asked w k hw).1

theorem issue_of_free (h : (s.slots k).slotValid = false) :
    (s.selection hp i).issue k = false := by
  rw [← Bool.not_eq_true]
  intro hissue
  have hreq := request_of_issue hissue
  rw [request, h] at hreq
  cases hreq

/-! ### One slot in one cycle -/

theorem isKilledByBranch_of_squashes {m : BrMask c} (h : squashes i = false) :
    isKilledByBranch i.brinfo m = false := by
  have hmis := (Bool.or_eq_false_iff.mp h).2
  cases hb : i.brinfo with
  | none => rfl
  | some b =>
    rw [hb] at hmis
    have hfalse : b.mispredict = false := hmis
    rw [isKilledByBranch, hfalse, Bool.false_and]

theorem next_of_writes (hok : s.Dispatches i)
    (h : s.writes i k w b = true) : ((s.next hp i).slots k).slotValid = true ∧
      ((s.next hp i).slots k).slotUop = (i.disUops w).half b := by
  obtain ⟨-, hsquash⟩ := hok w (writes_eq_true.mp h).1
  have hkill : i.flushPipeline = false := (Bool.or_eq_false_iff.mp hsquash).1
  have hissue : (s.selection hp i).issue k = false := issue_of_free (free_of_writes h)
  have hbranch := isKilledByBranch_of_squashes (m := (s.slots k).slotUop.brMask) hsquash
  have hin : s.inUop i k = some (i.disUops w, b) := by
    rw [inUop, writer_of_writes h]
    rfl
  constructor
  · simp [next, IssueSlot.next, slotInput, hbranch, hkill, hissue, hin]
  · simp [next, IssueSlot.next, IssueSlot.nextUop, IssueSlot.entered, slotInput, hbranch, hkill,
      hissue, hin]

/-- The micro-op of slot `k` is killed. -/
def killed (s : IssueUnit c N) (i : IssueInput c n W) (k : Fin N) : Bool :=
  i.flushPipeline || isKilledByBranch i.brinfo (s.slots k).slotUop.brMask

theorem next_of_not_writes (h : s.writer i k = none) :
    ((s.next hp i).slots k).slotValid =
      ((s.slots k).slotValid && !s.killed i k && !(s.selection hp i).issue k) := by
  have hin : s.inUop i k = none := by rw [inUop, h, Option.map_none]
  simp only [next, IssueSlot.next, slotInput, hin, killed, Option.isSome_none, Bool.false_or]
  cases isKilledByBranch i.brinfo (s.slots k).slotUop.brMask <;> cases i.flushPipeline <;>
    cases (s.selection hp i).issue k <;> simp

/-- A micro-op that goes on waiting changes in its branch mask only. -/
theorem uop_of_not_writes (h : s.writer i k = none) (hkilled : s.killed i k = false)
    (hissue : (s.selection hp i).issue k = false) :
    ((s.next hp i).slots k).slotUop = { (s.slots k).slotUop with
      brMask := getNewBrMask i.brinfo (s.slots k).slotUop.brMask } := by
  have hin : s.inUop i k = none := by rw [inUop, h, Option.map_none]
  obtain ⟨hflush, hbranch⟩ := Bool.or_eq_false_iff.mp hkilled
  simp [next, IssueSlot.next, IssueSlot.nextUop, IssueSlot.entered, slotInput, hbranch, hflush,
    hissue, hin]

end IssueUnit

end RiscvSoc
