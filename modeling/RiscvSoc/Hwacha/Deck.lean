import RiscvSoc.Hwacha.VMUTypes
import RiscvSoc.Lib.Machine

/-!
# The deck

`Deck` hands memory operations to the units that move their data: `VLU` writes what is loaded to the
banks, `VSU` reads what is stored from them. An atomic needs both. The operations wait in a queue,
and the one at its head is offered to the units that need it until it leaves.

An atomic leaves the queue when `VLU` takes it, whether or not `VSU` can take it then, and it is
offered to `VSU` whether or not `VLU` can take it. So `VSU` may miss it, and it may take it twice.
-/

namespace RiscvSoc

namespace Hwacha

/-- An operation of the deck, without what only the data path needs. -/
structure DeckOp where
  vlen : BitVec 12
  utidx : BitVec 12
  fn : VMUFn
  deriving DecidableEq

/-- The state machine and the operation of `VLU` or `VSU`. -/
structure DataUnit where
  busy : Bool
  op : DeckOp

namespace DataUnit

variable (u : DataUnit)

/-- `io.op.ready`. -/
def ready : Bool := !u.busy

/-- One cycle: the operation that is offered, and by how many elements the unit moves on. -/
def next (op : Option DeckOp) (cnt : Option (BitVec 12)) : DataUnit :=
  if u.busy then
    match cnt with
    | some cnt => ⟨u.op.utidx + cnt != u.op.vlen, { u.op with utidx := u.op.utidx + cnt }⟩
    | none => u
  else
    match op with
    | some op => ⟨true, op⟩
    | none => u

/-- What it takes of what is offered. -/
def taken (op : Option DeckOp) : Option DeckOp := if u.ready then op else none

end DataUnit

/-- `VLU` moves on when the sequencer reserves the loaded elements of a strip. -/
def VLU.next (u : DataUnit) (op : Option DeckOp) (reserve : Bool) (cnt : BitVec 12) : DataUnit :=
  u.next op (if reserve then some cnt else none)

/-- `VSU` moves on when the memory unit takes an element. -/
def VSU.next (u : DataUnit) (op : Option DeckOp) (sdataFire : Bool) : DataUnit :=
  u.next op (if sdataFire then some 1 else none)

structure Deck where
  opq : Queue DeckOp 2
  vlu : DataUnit
  vsu : DataUnit

structure DeckIn where
  op : Option DeckOp
  /-- `io.lla`. -/
  reserve : Bool
  cnt : BitVec 12
  /-- `brqs_deq(bank_id).valid` and `io.vmu.sdata.ready`. -/
  brqValid : Bool
  sdataReady : Bool

/-- What went into the queue and out of it, and what the units took. -/
structure DeckLog where
  enq : List DeckOp
  deq : List DeckOp
  vlu : List DeckOp
  vsu : List DeckOp

namespace Deck

variable (s : Deck) (i : DeckIn)

/-- The operation at the head of the queue. -/
def head : Option DeckOp := s.opq.deq false ⟨none, false⟩

/-- `opq.io.deq.ready`, which looks at the bits of the head. -/
def deqReady : Bool :=
  (!(s.opq.ram s.opq.ptrs.deq).fn.lreq || s.vlu.ready) &&
    (!(s.opq.ram s.opq.ptrs.deq).fn.sreq || s.vsu.ready)

/-- The operations that `VLU` is for. -/
def needsVLU (op : DeckOp) : Bool := op.fn.lreq

/-- The operations that `VSU` is for. -/
def needsVSU (op : DeckOp) : Bool := op.fn.sreq || op.fn.amoreq

/-- `vlu.io.op`. -/
def vluOp : Option DeckOp := s.head.filter needsVLU

/-- `vsu.io.op`. -/
def vsuOp : Option DeckOp := s.head.filter needsVSU

/-- `io.vmu.sdata.fire()`. -/
def sdataFire : Bool := i.brqValid && s.vsu.busy && i.sdataReady

def queueIn : QueueInput DeckOp := ⟨i.op, s.deqReady⟩

def next : Deck where
  opq := s.opq.next false false (s.queueIn i)
  vlu := VLU.next s.vlu s.vluOp i.reserve i.cnt
  vsu := VSU.next s.vsu s.vsuOp (s.sdataFire i)

/-- The log goes on. -/
def note (g : DeckLog) : DeckLog where
  enq := g.enq ++ s.opq.entered false (s.queueIn i)
  deq := g.deq ++ s.opq.left false (s.queueIn i)
  vlu := g.vlu ++ (s.vlu.taken s.vluOp).toList
  vsu := g.vsu ++ (s.vsu.taken s.vsuOp).toList

/-- Reset; the operations of the units are anything. -/
structure IsReset : Prop where
  opq : s.opq.IsReset
  vlu : s.vlu.busy = false
  vsu : s.vsu.busy = false

def machine : Machine (Deck × DeckLog) DeckIn :=
  (Machine.clocked IsReset next).observe ⟨[], [], [], []⟩ note

end Deck

/-- Every unit took operations that it is for, in their order and none twice, and what left the
queue was taken before by all units that it is for. -/
structure DeckLog.Delivers (g : DeckLog) : Prop where
  vlu : g.vlu <+: g.enq.filter Deck.needsVLU
  vsu : g.vsu <+: g.enq.filter Deck.needsVSU
  vluDone : g.deq.filter Deck.needsVLU <+: g.vlu
  vsuDone : g.deq.filter Deck.needsVSU <+: g.vsu

/-- `VSU` has taken an operation that is still in the queue. -/
def DeckLog.Early (g : DeckLog) : Prop := (g.deq.filter Deck.needsVSU).length < g.vsu.length

namespace Deck

/-- An atomic that `VSU` has not taken yet does not find `VLU` idle and `VSU` busy, and one that
`VSU` has taken does not find `VSU` idle. -/
def TogetherAt (s : Deck) (g : DeckLog) (op : DeckOp) : Prop :=
  op.fn.amoreq = true →
    (¬ g.Early → s.vlu.busy = false → s.vsu.busy = false) ∧ (g.Early → s.vsu.busy = true)

/-- The same for the operation at the head of the queue. -/
def Together (s : Deck) (g : DeckLog) : Prop := ∀ op ∈ s.head, TogetherAt s g op

/-! ### The invariant -/

variable {s : Deck} {i : DeckIn} {g : DeckLog}

/-- `VLU` took what left the queue; `VSU` did, too, and it may have taken the atomic at the head. -/
structure Inv (s : Deck) (g : DeckLog) : Prop where
  fifo : g.enq = g.deq ++ s.opq.held
  vlu : g.vlu = g.deq.filter needsVLU
  vsu : g.vsu = g.deq.filter needsVSU ∨
    ∃ op, s.head = some op ∧ op.fn.amoreq = true ∧ g.vsu = g.deq.filter needsVSU ++ [op]

theorem Inv.start (h : s.IsReset) : Inv s ⟨[], [], [], []⟩ where
  fifo := h.opq.held.symm
  vlu := rfl
  vsu := .inl rfl

variable {op : DeckOp}

theorem needsVSU_of_amoreq (h : op.fn.amoreq = true) : needsVSU op = true := by
  rw [needsVSU, h, Bool.or_true]

theorem head_eq : s.head = s.opq.held.head? := by
  have h : s.opq.deq false ⟨none, false⟩ = (s.opq.held ++ []).head? := Queue.deq_eq_head
  rw [head, h]
  exact congrArg _ (List.append_nil _)

theorem bits_of_head (h : s.head = some op) :
    s.opq.ram s.opq.ptrs.deq = op := by
  cases hempty : s.opq.ptrs.empty with
  | true =>
    rw [head, Queue.deq_of_empty hempty] at h
    cases h
  | false =>
    rw [head, Queue.deq_of_not_empty hempty] at h
    exact Option.some.inj h

theorem left_eq : s.opq.left false (s.queueIn i) = if s.deqReady then s.head.toList else [] := rfl

theorem Inv.delivers (h : Inv s g) : g.Delivers := by
  have hdeq : ∀ p, g.deq.filter p <+: g.enq.filter p := by
    intro p
    rw [h.fifo, List.filter_append]
    exact List.prefix_append ..
  refine ⟨h.vlu ▸ hdeq _, ?_, h.vlu ▸ List.prefix_rfl, ?_⟩
  · rcases h.vsu with hvsu | ⟨op, hhead, hamo, hvsu⟩
    · exact hvsu ▸ hdeq _
    · rw [head_eq] at hhead
      obtain ⟨rest, hheld⟩ := List.head?_eq_some_iff.mp hhead
      rw [hvsu, h.fifo, hheld, List.filter_append,
        List.filter_cons_of_pos (needsVSU_of_amoreq hamo), List.prefix_append_right_inj]
      exact List.prefix_append [op] _
  · rcases h.vsu with hvsu | ⟨op, -, -, hvsu⟩
    · exact hvsu ▸ List.prefix_rfl
    · rw [hvsu]
      exact List.prefix_append ..

/-! ### One cycle -/

theorem fifo_step (h : Inv s g) : (note s i g).enq = (note s i g).deq ++ (next s i).opq.held := by
  have hstep : s.opq.held ++ s.opq.entered false (s.queueIn i) =
      s.opq.left false (s.queueIn i) ++ (next s i).opq.held := Queue.step
  calc g.enq ++ s.opq.entered false (s.queueIn i)
      = g.deq ++ (s.opq.held ++ s.opq.entered false (s.queueIn i)) := by
        rw [h.fifo, List.append_assoc]
    _ = g.deq ++ s.opq.left false (s.queueIn i) ++ (next s i).opq.held := by
        rw [hstep, List.append_assoc]

/-- `VLU` takes exactly the operations that leave the queue. -/
theorem vlu_step (h : Inv s g) : (note s i g).vlu = (note s i g).deq.filter needsVLU := by
  show g.vlu ++ (s.vlu.taken s.vluOp).toList =
    (g.deq ++ s.opq.left false (s.queueIn i)).filter needsVLU
  rw [List.filter_append, h.vlu, left_eq]
  congr 1
  cases hhead : s.head with
  | none => rw [vluOp, hhead, DataUnit.taken]; split <;> split <;> rfl
  | some op =>
    have hready : s.deqReady = ((!op.fn.lreq || s.vlu.ready) && (!op.fn.sreq || s.vsu.ready)) := by
      rw [deqReady, bits_of_head hhead]
    rw [vluOp, hhead, DataUnit.taken, hready]
    cases hl : op.fn.lreq with
    | false =>
      have hneeds : needsVLU op = false := hl
      split <;> split <;> simp [Option.filter, hneeds]
    | true =>
      have hneeds : needsVLU op = true := hl
      rw [op.fn.sreq_of_lreq hl]
      cases s.vlu.ready <;> simp [Option.filter, hneeds]

section

variable (hhead : s.head = some op)
include hhead

/-- Whatever is not an atomic is taken by `VSU` when it leaves the queue. -/
theorem vsu_step_plain (hamo : op.fn.amoreq = false) (hvsu : g.vsu = g.deq.filter needsVSU) :
    (note s i g).vsu = (note s i g).deq.filter needsVSU := by
  show g.vsu ++ (s.vsu.taken s.vsuOp).toList =
    (g.deq ++ s.opq.left false (s.queueIn i)).filter needsVSU
  have hready : s.deqReady = ((!op.fn.lreq || s.vlu.ready) && (!op.fn.sreq || s.vsu.ready)) := by
    rw [deqReady, bits_of_head hhead]
  rw [List.filter_append, hvsu, left_eq, vsuOp, hhead, DataUnit.taken, hready]
  congr 1
  cases hs : op.fn.sreq with
  | false =>
    have hneeds : needsVSU op = false := by rw [needsVSU, hs, hamo]; rfl
    split <;> split <;> simp [Option.filter, hneeds]
  | true =>
    have hneeds : needsVSU op = true := by rw [needsVSU, hs]; rfl
    have hl : op.fn.lreq = false := by
      cases hl : op.fn.lreq with
      | false => rfl
      | true => exact absurd (op.fn.sreq_of_lreq hl) (by rw [hs]; decide)
    rw [hl]
    cases s.vsu.ready <;> simp [Option.filter, hneeds]

/-- An atomic leaves the queue when `VLU` is idle. -/
theorem deqReady_amo (hamo : op.fn.amoreq = true) :
    s.deqReady = !s.vlu.busy := by
  have hl := op.fn.lreq_of_amoreq hamo
  rw [deqReady, bits_of_head hhead, hl, op.fn.sreq_of_lreq hl]
  simp [DataUnit.ready]

theorem head_next (hstay : s.deqReady = false) :
    (next s i).head = some op := by
  have hstep : s.opq.held ++ s.opq.entered false (s.queueIn i) =
      s.opq.left false (s.queueIn i) ++ (next s i).opq.held := Queue.step
  rw [head_eq] at hhead ⊢
  obtain ⟨rest, hheld⟩ := List.head?_eq_some_iff.mp hhead
  rw [left_eq, hstay, hheld] at hstep
  rw [← show _ = (next s i).opq.held from hstep]
  rfl

theorem vsu_step_amo (hamo : op.fn.amoreq = true) (htogether : TogetherAt s g op)
    (hvsu : g.vsu = g.deq.filter needsVSU ∨ g.vsu = g.deq.filter needsVSU ++ [op]) :
    (note s i g).vsu = (note s i g).deq.filter needsVSU ∨
      (next s i).head = some op ∧
        (note s i g).vsu = (note s i g).deq.filter needsVSU ++ [op] := by
  have hneeds := needsVSU_of_amoreq hamo
  have hnote : (note s i g).vsu = g.vsu ++ if s.vsu.busy then [] else [op] := by
    show g.vsu ++ (s.vsu.taken s.vsuOp).toList = _
    rw [vsuOp, hhead, DataUnit.taken, DataUnit.ready]
    cases s.vsu.busy <;> simp [hneeds]
  have hdeq : (note s i g).deq.filter needsVSU =
      g.deq.filter needsVSU ++ if s.vlu.busy then [] else [op] := by
    show (g.deq ++ s.opq.left false (s.queueIn i)).filter needsVSU = _
    rw [List.filter_append, left_eq, hhead, deqReady_amo hhead hamo]
    cases s.vlu.busy <;> simp [hneeds]
  obtain ⟨hlate, hearly⟩ := htogether hamo
  rw [hnote, hdeq]
  rcases hvsu with hvsu | hvsu
  · have hnot : ¬ g.Early := by rw [DeckLog.Early, hvsu]; exact lt_irrefl _
    rw [hvsu]
    cases hl : s.vlu.busy with
    | false =>
      rw [hlate hnot hl]
      exact .inl rfl
    | true =>
      have hstay : s.deqReady = false := by rw [deqReady_amo hhead hamo, hl]; rfl
      cases s.vsu.busy with
      | true => exact .inl rfl
      | false => exact .inr ⟨head_next hhead hstay, by simp⟩
  · have hyes : g.Early := by rw [DeckLog.Early, hvsu, List.length_append]; exact Nat.lt_succ_self _
    rw [hvsu, hearly hyes]
    cases hl : s.vlu.busy with
    | false => exact .inl (List.append_nil _)
    | true =>
      have hstay : s.deqReady = false := by rw [deqReady_amo hhead hamo, hl]; rfl
      exact .inr ⟨head_next hhead hstay, by simp⟩

end

theorem vsu_step (h : Inv s g) (htogether : Together s g) :
    (note s i g).vsu = (note s i g).deq.filter needsVSU ∨
      ∃ op, (next s i).head = some op ∧ op.fn.amoreq = true ∧
        (note s i g).vsu = (note s i g).deq.filter needsVSU ++ [op] := by
  cases hhead : s.head with
  | none =>
    have hvsu : g.vsu = g.deq.filter needsVSU := by
      rcases h.vsu with hvsu | ⟨op, hop, -, -⟩
      · exact hvsu
      · rw [hhead] at hop
        cases hop
    refine .inl ?_
    show g.vsu ++ (s.vsu.taken s.vsuOp).toList =
      (g.deq ++ s.opq.left false (s.queueIn i)).filter needsVSU
    rw [List.filter_append, hvsu, left_eq, vsuOp, hhead, DataUnit.taken]
    split <;> split <;> rfl
  | some op =>
    cases hamo : op.fn.amoreq with
    | false =>
      refine .inl (vsu_step_plain hhead hamo ?_)
      rcases h.vsu with hvsu | ⟨op', hop, hamo', -⟩
      · exact hvsu
      · rw [hhead] at hop
        cases hop
        rw [hamo] at hamo'
        cases hamo'
    | true =>
      have hvsu : g.vsu = g.deq.filter needsVSU ∨ g.vsu = g.deq.filter needsVSU ++ [op] := by
        rcases h.vsu with hvsu | ⟨op', hop, -, hvsu⟩
        · exact .inl hvsu
        · rw [hhead] at hop
          cases hop
          exact .inr hvsu
      rcases vsu_step_amo (i := i) hhead hamo (htogether op hhead) hvsu with hnext | ⟨hnext, hlog⟩
      · exact .inl hnext
      · exact .inr ⟨op, hnext, hamo, hlog⟩

/-- **One cycle.** -/
theorem Inv.step (h : Inv s g) (htogether : Together s g) : Inv (next s i) (note s i g) where
  fifo := fifo_step h
  vlu := vlu_step h
  vsu := vsu_step h htogether

end Deck

/-- **The deck delivers every operation once** if `VSU` takes every atomic once, together with `VLU`
or before it. -/
theorem deck_delivers (x : Deck × DeckLog)
    (h : (Deck.machine.restrict fun x _ => Deck.Together x.1 x.2).Reachable x) :
    x.2.Delivers := by
  have hinv : Deck.Inv x.1 x.2 := by
    refine Machine.invariant (I := fun x => Deck.Inv x.1 x.2) ?_ ?_ x h
    · rintro ⟨s, g⟩ ⟨hs, rfl⟩
      exact Deck.Inv.start hs
    · rintro ⟨s, g⟩ i ⟨s', g'⟩ - hinv ⟨htogether, rfl, rfl⟩
      exact hinv.step htogether
  exact hinv.delivers

/-! ### Runs -/

namespace Deck

def idleOp : DeckOp := ⟨0, 0, ⟨VMUFn.VM_ULD, VMUFn.MT_D⟩⟩

theorem two_pos : 0 < 2 := Nat.succ_pos 1

def start : Deck where
  opq := ⟨⟨⟨0, two_pos⟩, ⟨0, two_pos⟩, false⟩, fun _ => idleOp⟩
  vlu := ⟨false, idleOp⟩
  vsu := ⟨false, idleOp⟩

theorem reachable_start : machine.Reachable (start, ⟨[], [], [], []⟩) :=
  .init ⟨⟨rfl, rfl, rfl⟩, rfl⟩

theorem reachable_start_restrict :
    (machine.restrict fun x _ => Together x.1 x.2).Reachable (start, ⟨[], [], [], []⟩) :=
  .init ⟨⟨rfl, rfl, rfl⟩, rfl⟩

def store : DeckOp := ⟨2, 0, ⟨VMUFn.VM_UST, VMUFn.MT_D⟩⟩

/-- `VM_AMO_ADD`. -/
def atomic : DeckOp := ⟨2, 0, ⟨0b001000, VMUFn.MT_D⟩⟩

/-- No data moves. -/
def offer (op : Option DeckOp) : DeckIn := ⟨op, false, 0, false, false⟩

/-- An atomic alone. -/
def oneAtomic : List DeckIn := [offer (some atomic), offer none]

/-- An atomic behind a store whose data do not come. -/
def storeFirst : List DeckIn := [offer (some store), offer (some atomic), offer none]

end Deck

/-- An atomic that both units take. -/
theorem deck_delivers_oneAtomic :
    (Machine.cycles Deck.next Deck.note Deck.oneAtomic
      (Deck.start, ⟨[], [], [], []⟩)).2.Delivers := by
  refine deck_delivers _ (Machine.reachable_restrict_cycles Deck.reachable_start_restrict
    Deck.oneAtomic ⟨?_, ?_, trivial⟩)
  · intro op hop
    cases hop
  · rintro op ⟨⟩ -
    exact ⟨fun _ _ => rfl, fun h => absurd h (Nat.lt_irrefl 0)⟩

/-- **An atomic leaves the queue while `VSU` is busy.** It is loaded, and never stored. -/
theorem deck_loses_atomic : ¬ ∀ x, Deck.machine.Reachable x → x.2.Delivers := by
  intro hall
  have hdone := (hall _ (Machine.reachable_cycles Deck.reachable_start
    Deck.storeFirst)).vsuDone.length_le
  exact absurd hdone (by decide)

end Hwacha

end RiscvSoc
