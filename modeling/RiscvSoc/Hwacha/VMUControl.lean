import RiscvSoc.Hwacha.VMUTypes
import RiscvSoc.Lib.Machine

/-!
# The control of the vector memory unit

`VMUControl` has a queue of commands and a queue of bases and strides, which only the commands of a
whole vector use. In its idle state it starts the command at the head, with the entry at the head
of the other queue if it is for a whole vector, and then it waits for the back ends.

In its idle state it also empties both queues by one, in every cycle and whether or not it starts a
command. So nothing is lost only if the two heads always belong together: in an idle cycle there is
an address entry at the head exactly when there is a command at the head that uses one.

`AddressGen` is one of the back ends. It counts the elements and adds the stride for each.
-/

namespace RiscvSoc

namespace Hwacha

/-! ### The control -/

structure VMUControl (n m : ℕ) where
  cmdq : Queue VMUOp n
  addrq : Queue VMUAddressOp m
  cmdHold : VMUOp
  addrHold : VMUAddressOp
  busy : Bool

structure VMUControlIn where
  cmd : Option VMUOp
  addr : Option VMUAddressOp
  addrBusy : Bool
  storeBusy : Bool

namespace VMUControl

variable {n m : ℕ} [NeZero n] [NeZero m] (s : VMUControl n m) (i : VMUControlIn)

/-- `cmdq.io.deq.bits`. -/
def cmdBits : VMUOp := s.cmdq.ram s.cmdq.ptrs.deq

/-- `addrq.io.deq.bits`. -/
def addrBits : VMUAddressOp := s.addrq.ram s.addrq.ptrs.deq

/-- `cmdq.io.deq.valid`. -/
def cmdValid : Bool := !s.cmdq.ptrs.empty

/-- `addrq.io.deq.valid`. -/
def addrValid : Bool := !s.addrq.ptrs.empty

/-- `io.addr.fire` and `io.store.fire`. -/
def fire : Bool := !s.busy && (s.cmdValid && (!s.cmdBits.fn.tvec || s.addrValid))

/-- `io.addr.op` and `io.store.op`. -/
def op : VMUDecodedOp :=
  if s.busy then .decode s.cmdHold s.addrHold else .decode s.cmdBits s.addrBits

def cmdqIn : QueueInput VMUOp := ⟨i.cmd, !s.busy⟩

def addrqIn : QueueInput VMUAddressOp := ⟨i.addr, !s.busy⟩

/-- One cycle. -/
def next : VMUControl n m where
  cmdq := s.cmdq.next false false (s.cmdqIn i)
  addrq := s.addrq.next false false (s.addrqIn i)
  cmdHold := if s.fire then s.cmdBits else s.cmdHold
  addrHold := if s.fire then s.addrBits else s.addrHold
  busy := if s.busy then i.addrBusy || i.storeBusy else s.fire

/-- In the idle state, there is an address entry exactly when there is a command that uses one. -/
def Paired : Prop :=
  s.busy = false → s.addrValid = (s.cmdValid && s.cmdBits.fn.tvec)

end VMUControl

open VMUControl

/-! ### The address generator -/

structure AddressGen where
  busy : Bool
  addr : BitVec 64
  utidx : BitVec 12

structure AddressGenIn where
  op : VMUDecodedOp
  fire : Bool
  vvaq : Option (BitVec 43)
  vatqReady : Bool
  /-- `io.xcpt.prop.vmu.drain`. -/
  drain : Bool

/-- `VATQEntry`, with the parts of its metadata that are not constant. -/
structure VATQEntry where
  addr : BitVec 43
  utidx : BitVec 12
  cmd : BitVec 5
  typ : BitVec 3

namespace AddressGen

variable (s : AddressGen) (i : AddressGenIn)

/-- `io.vatq`. -/
def vatq : Option VATQEntry :=
  let entry (addr : BitVec 43) : VATQEntry :=
    ⟨addr, s.utidx, if i.drain then VMUFn.M_XWR else i.op.cmdRaw,
      if i.drain then VMUFn.MT_D else i.op.typRaw⟩
  if i.drain then i.vvaq.map entry
  else if s.busy then
    if i.op.tvec then some (entry (s.addr.setWidth 43)) else i.vvaq.map entry
  else none

/-- `io.vatq.fire()`. -/
def vatqFire : Bool := (s.vatq i).isSome && i.vatqReady

/-- One cycle. -/
def next : AddressGen :=
  if s.busy then
    if s.vatqFire i then ⟨s.utidx + 1 != i.op.vlen, s.addr + i.op.stride, s.utidx + 1⟩ else s
  else if i.fire then ⟨true, i.op.base, 0⟩
  else s

end AddressGen

/-! ### Both -/

structure VMUFront (n m : ℕ) where
  control : VMUControl n m
  agu : AddressGen

structure VMUFrontIn where
  control : VMUControlIn
  vvaq : Option (BitVec 43)
  vatqReady : Bool
  drain : Bool

/-- What was taken into the queues, and the commands that were started, each with the address entry
that the back ends see. -/
structure VMULog where
  cmds : List VMUOp
  addrs : List VMUAddressOp
  started : List (VMUOp × VMUAddressOp)

namespace VMUFront

variable {n m : ℕ} [NeZero n] [NeZero m] (s : VMUFront n m) (i : VMUFrontIn)

def aguIn : AddressGenIn where
  op := s.control.op
  fire := s.control.fire
  vvaq := i.vvaq
  vatqReady := i.vatqReady
  drain := i.drain

def next : VMUFront n m where
  control := s.control.next i.control
  agu := s.agu.next (s.aguIn i)

/-- The log goes on. -/
def note (g : VMULog) : VMULog where
  cmds := g.cmds ++ s.control.cmdq.entered false (s.control.cmdqIn i.control)
  addrs := g.addrs ++ s.control.addrq.entered false (s.control.addrqIn i.control)
  started := g.started ++
    if s.control.fire then [(s.control.cmdBits, s.control.addrBits)] else []

/-- Reset; the registers without a reset value hold anything. -/
structure IsReset : Prop where
  cmdq : s.control.cmdq.IsReset
  addrq : s.control.addrq.IsReset
  busy : s.control.busy = false
  agu : s.agu.busy = false

/-- The two machines with their log. Whether the back ends are busy is up to the environment. -/
def machine (n m : ℕ) [NeZero n] [NeZero m] : Machine (VMUFront n m × VMULog) VMUFrontIn :=
  (Machine.clocked IsReset next).observe ⟨[], [], []⟩ note

end VMUFront

/-- The commands are started in their order, those of a whole vector each with its own address
entry, nothing is dropped, and the back ends see what was started last. -/
structure VMULog.InOrder {n m : ℕ} [NeZero n] [NeZero m] (g : VMULog) (s : VMUControl n m) :
    Prop where
  cmds : g.cmds = g.started.map Prod.fst ++ s.cmdq.held
  addrs : g.addrs = (g.started.filter fun x => x.1.fn.tvec).map Prod.snd ++ s.addrq.held
  op : s.busy = true → ∃ x, g.started.getLast? = some x ∧ s.op = .decode x.1 x.2

/-- While the address generator works on a command of a whole vector, the next element is the one
that the base and the stride of that command give. -/
def VMULog.Strides {n m : ℕ} (g : VMULog) (s : VMUFront n m) : Prop :=
  s.agu.busy = true → ∃ x, g.started.getLast? = some x ∧
    s.agu.addr = x.2.base + s.agu.utidx.setWidth 64 * x.2.stride

namespace VMUControl

variable {n m : ℕ} [NeZero n] [NeZero m] {s : VMUControl n m} {i : VMUControlIn}

/-! ### The queues -/

omit [NeZero n] in
theorem left_eq {α : Type} (q : Queue α n) (enq : Option α) (busy : Bool) :
    q.left false ⟨enq, !busy⟩ = if !busy && !q.ptrs.empty then [q.ram q.ptrs.deq] else [] := by
  rw [Queue.left]
  cases hempty : q.ptrs.empty with
  | true =>
    rw [Queue.deq_of_empty hempty]
    cases busy <;> rfl
  | false =>
    rw [Queue.deq_of_not_empty hempty]
    cases busy <;> rfl

omit [NeZero n] [NeZero m] in
theorem fire_of_busy (h : s.busy = true) : s.fire = false := by rw [fire, h]; rfl

omit [NeZero n] [NeZero m] in
/-- Where the heads belong together, a command that leaves its queue is started. -/
theorem fire_eq (h : s.Paired) : s.fire = (!s.busy && s.cmdValid) := by
  cases hb : s.busy with
  | true => exact fire_of_busy hb
  | false =>
    rw [fire, hb, h hb]
    cases s.cmdValid <;> cases s.cmdBits.fn.tvec <;> rfl

omit [NeZero n] [NeZero m] in
/-- Where the heads belong together, an address entry leaves its queue with a command of a whole
vector. -/
theorem addr_left (h : s.Paired) :
    (!s.busy && s.addrValid) = (s.fire && s.cmdBits.fn.tvec) := by
  rw [fire_eq h]
  cases hb : s.busy with
  | true => rfl
  | false =>
    rw [h hb]
    rfl

end VMUControl

namespace VMUFront

variable {n m : ℕ} [NeZero n] [NeZero m] {s : VMUFront n m} {i : VMUFrontIn} {g : VMULog}

/-! ### One cycle -/

theorem cmds_step (h : g.InOrder s.control) (hpaired : s.control.Paired) :
    (note s i g).cmds = (note s i g).started.map Prod.fst ++ (next s i).control.cmdq.held := by
  have hstep : s.control.cmdq.held ++ s.control.cmdq.entered false (s.control.cmdqIn i.control) =
      s.control.cmdq.left false (s.control.cmdqIn i.control) ++ (next s i).control.cmdq.held :=
    Queue.step
  have hleft : s.control.cmdq.left false (s.control.cmdqIn i.control) =
      (if s.control.fire then [(s.control.cmdBits, s.control.addrBits)] else []).map Prod.fst := by
    rw [VMUControl.cmdqIn, VMUControl.left_eq, fire_eq hpaired]
    show (if !s.control.busy && s.control.cmdValid then [s.control.cmdBits] else []) = _
    split <;> rfl
  calc g.cmds ++ s.control.cmdq.entered false (s.control.cmdqIn i.control)
      = g.started.map Prod.fst ++
          (s.control.cmdq.held ++ s.control.cmdq.entered false (s.control.cmdqIn i.control)) := by
        rw [h.cmds, List.append_assoc]
    _ = (note s i g).started.map Prod.fst ++ (next s i).control.cmdq.held := by
        rw [hstep, hleft, note, List.map_append, List.append_assoc]

theorem addrs_step (h : g.InOrder s.control) (hpaired : s.control.Paired) :
    (note s i g).addrs = ((note s i g).started.filter fun x => x.1.fn.tvec).map Prod.snd ++
      (next s i).control.addrq.held := by
  have hstep : s.control.addrq.held ++
      s.control.addrq.entered false (s.control.addrqIn i.control) =
      s.control.addrq.left false (s.control.addrqIn i.control) ++ (next s i).control.addrq.held :=
    Queue.step
  have hleft : s.control.addrq.left false (s.control.addrqIn i.control) =
      ((if s.control.fire then [(s.control.cmdBits, s.control.addrBits)] else []).filter
        fun x => x.1.fn.tvec).map Prod.snd := by
    rw [VMUControl.addrqIn, VMUControl.left_eq]
    show (if !s.control.busy && s.control.addrValid then [s.control.addrBits] else []) = _
    rw [addr_left hpaired]
    cases s.control.fire with
    | false => rfl
    | true => cases htvec : s.control.cmdBits.fn.tvec <;> simp [htvec]
  calc g.addrs ++ s.control.addrq.entered false (s.control.addrqIn i.control)
      = (g.started.filter fun x => x.1.fn.tvec).map Prod.snd ++
          (s.control.addrq.held ++
            s.control.addrq.entered false (s.control.addrqIn i.control)) := by
        rw [h.addrs, List.append_assoc]
    _ = ((note s i g).started.filter fun x => x.1.fn.tvec).map Prod.snd ++
          (next s i).control.addrq.held := by
        rw [hstep, hleft, note, List.filter_append, List.map_append, List.append_assoc]

/-- What the back ends see is held while a command is executed. -/
structure Holds (s : VMUFront n m) (g : VMULog) : Prop where
  held : s.control.busy = true →
    g.started.getLast? = some (s.control.cmdHold, s.control.addrHold)

omit [NeZero n] [NeZero m] in
theorem Holds.op (h : Holds s g) (hb : s.control.busy = true) :
    ∃ x, g.started.getLast? = some x ∧ s.control.op = .decode x.1 x.2 :=
  ⟨_, h.held hb, if_pos hb⟩

theorem Holds.step (h : Holds s g) : Holds (next s i) (note s i g) where
  held := by
    show (if s.control.busy then i.control.addrBusy || i.control.storeBusy else s.control.fire) =
        true → (g.started ++ if s.control.fire then [(s.control.cmdBits, s.control.addrBits)]
          else []).getLast? = some (if s.control.fire then s.control.cmdBits else s.control.cmdHold,
            if s.control.fire then s.control.addrBits else s.control.addrHold)
    cases hb : s.control.busy with
    | true =>
      intro _
      rw [fire_of_busy hb]
      exact (congrArg _ (List.append_nil _)).trans (h.held hb)
    | false =>
      intro hfire
      rw [if_neg (by simp)] at hfire
      rw [hfire]
      exact List.getLast?_concat

/-! ### The addresses -/

theorem setWidth_succ {x : BitVec 12} (h : x + 1 ≠ 0) :
    (x + 1).setWidth 64 = x.setWidth 64 + 1#64 := by
  have hne : (x + 1).toNat ≠ 0 := fun h0 => h (BitVec.eq_of_toNat_eq h0)
  have hlt := x.isLt
  have hadd : (x + 1).toNat = (x.toNat + 1) % 2 ^ 12 := BitVec.toNat_add x 1
  have hone : (1#64).toNat = 1 := rfl
  apply BitVec.eq_of_toNat_eq
  rw [BitVec.toNat_add, BitVec.toNat_setWidth, BitVec.toNat_setWidth, hone]
  omega

/-- What is known of the address generator when the control waits for it: the elements are counted
from zero up to the length of the vector, so that the count does not wrap around before the end. -/
structure AguInv (s : VMUFront n m) : Prop where
  busy : s.control.busy = true
  addr : s.agu.addr =
    s.control.addrHold.base + s.agu.utidx.setWidth 64 * s.control.addrHold.stride
  count : s.control.cmdHold.vlen = 0 ∨ s.agu.utidx < s.control.cmdHold.vlen

theorem count_step {utidx vlen : BitVec 12} (h : vlen = 0 ∨ utidx < vlen) (hne : utidx + 1 ≠ vlen) :
    utidx + 1 ≠ 0 ∧ (vlen = 0 ∨ utidx + 1 < vlen) := by
  have hadd : (utidx + 1).toNat = (utidx.toNat + 1) % 2 ^ 12 := BitVec.toNat_add utidx 1
  have hzero : (0 : BitVec 12).toNat = 0 := rfl
  have hne' : (utidx + 1).toNat ≠ vlen.toNat := fun h' => hne (BitVec.eq_of_toNat_eq h')
  rcases h with rfl | hlt
  · exact ⟨hne, .inl rfl⟩
  · have hlt' : utidx.toNat < vlen.toNat := hlt
    have hvlen := vlen.isLt
    refine ⟨fun h0 => ?_, .inr ?_⟩
    · rw [h0, hzero] at hadd
      omega
    · show (utidx + 1).toNat < vlen.toNat
      omega

theorem AguInv.step (h : s.agu.busy = true → AguInv s) (hwait : i.control.addrBusy = s.agu.busy) :
    (next s i).agu.busy = true → AguInv (next s i) := by
  cases hb : s.agu.busy with
  | false =>
    have hagu : (next s i).agu =
        if s.control.fire then ⟨true, s.control.op.base, 0⟩ else s.agu := by
      rw [next, AddressGen.next, hb]
      rfl
    intro hbusy
    cases hfire : s.control.fire with
    | false =>
      rw [hagu, hfire, if_neg (by simp), hb] at hbusy
      cases hbusy
    | true =>
      have hidle : s.control.busy = false := by
        cases hc : s.control.busy with
        | false => rfl
        | true =>
          rw [fire_of_busy hc] at hfire
          cases hfire
      have hcontrol : (next s i).control.busy = true := by
        show (if s.control.busy then _ else s.control.fire) = true
        rw [hidle, hfire]
        rfl
      have hcmd : (next s i).control.cmdHold = s.control.cmdBits := if_pos hfire
      have haddr : (next s i).control.addrHold = s.control.addrBits := if_pos hfire
      refine ⟨hcontrol, ?_, ?_⟩
      · rw [hagu, if_pos hfire, haddr, VMUControl.op, hidle]
        simp [VMUDecodedOp.decode]
      · rw [hagu, if_pos hfire, hcmd]
        rcases Nat.eq_zero_or_pos s.control.cmdBits.vlen.toNat with h0 | hpos
        · exact .inl (BitVec.eq_of_toNat_eq h0)
        · exact .inr hpos
  | true =>
    obtain ⟨hbusy, haddr, hcount⟩ := h hb
    have hop : s.control.op = .decode s.control.cmdHold s.control.addrHold := if_pos hbusy
    have hfire := fire_of_busy hbusy
    have hcontrol : (next s i).control.busy = true := by
      show (if s.control.busy then i.control.addrBusy || i.control.storeBusy else _) = true
      rw [hbusy, hwait, hb]
      rfl
    have hcmd : (next s i).control.cmdHold = s.control.cmdHold :=
      if_neg (by rw [hfire]; exact Bool.false_ne_true)
    have hheld : (next s i).control.addrHold = s.control.addrHold :=
      if_neg (by rw [hfire]; exact Bool.false_ne_true)
    cases hv : s.agu.vatqFire (s.aguIn i) with
    | false =>
      have hagu : (next s i).agu = s.agu := by
        rw [next, AddressGen.next, hb, hv]
        rfl
      intro _
      exact ⟨hcontrol, by rw [hagu, hheld]; exact haddr, by rw [hagu, hcmd]; exact hcount⟩
    | true =>
      have hagu : (next s i).agu = ⟨s.agu.utidx + 1 != s.control.cmdHold.vlen,
          s.agu.addr + s.control.addrHold.stride, s.agu.utidx + 1⟩ := by
        rw [next, AddressGen.next, hb, hv, aguIn, hop]
        rfl
      intro hgo
      rw [hagu] at hgo
      obtain ⟨hne, hcount'⟩ := count_step hcount (bne_iff_ne.mp hgo)
      refine ⟨hcontrol, ?_, by rw [hagu, hcmd]; exact hcount'⟩
      rw [hagu, hheld]
      calc s.agu.addr + s.control.addrHold.stride
          = s.control.addrHold.base + (s.agu.utidx.setWidth 64 * s.control.addrHold.stride +
              1#64 * s.control.addrHold.stride) := by
            rw [haddr, BitVec.one_mul, BitVec.add_assoc]
        _ = s.control.addrHold.base +
              (s.agu.utidx + 1).setWidth 64 * s.control.addrHold.stride := by
            rw [setWidth_succ hne, BitVec.add_mul]

end VMUFront

/-- **Commands and addresses stay together.** As long as the heads of the two queues belong together
in every idle cycle, nothing is dropped, and each command of a whole vector has its own base and
stride. If the address generator is what the control waits for, it gives every element the address
that they say. -/
theorem vmuControl_in_order (n m : ℕ) [NeZero n] [NeZero m] (x : VMUFront n m × VMULog)
    (h : ((VMUFront.machine n m).restrict fun x _ => x.1.control.Paired).Reachable x) :
    x.2.InOrder x.1.control ∧
      (((VMUFront.machine n m).restrict fun x i =>
        i.control.addrBusy = x.1.agu.busy).Reachable x → x.2.Strides x.1) := by
  have hheld : ∀ x, (VMUFront.machine n m).Reachable x → VMUFront.Holds x.1 x.2 := by
    refine Machine.invariant ?_ ?_
    · rintro ⟨s, g⟩ ⟨hs, rfl⟩
      refine ⟨fun hb => ?_⟩
      rw [hs.busy] at hb
      cases hb
    · rintro ⟨s, g⟩ i ⟨s', g'⟩ - hinv ⟨rfl, rfl⟩
      exact hinv.step
  refine ⟨?_, fun hagu hb => ?_⟩
  · refine Machine.invariant (I := fun x => x.2.InOrder x.1.control) ?_ ?_ x h
    · rintro ⟨s, g⟩ ⟨hs, rfl⟩
      refine ⟨hs.cmdq.held.symm, hs.addrq.held.symm, fun hb => ?_⟩
      rw [hs.busy] at hb
      cases hb
    · rintro ⟨s, g⟩ i ⟨s', g'⟩ hreach hinv ⟨hpaired, rfl, rfl⟩
      exact ⟨VMUFront.cmds_step hinv hpaired, VMUFront.addrs_step hinv hpaired,
        (hheld _ hreach.of_restrict).step.op⟩
  · have hinv : x.1.agu.busy = true → VMUFront.AguInv x.1 := by
      refine Machine.invariant
        (I := fun x => x.1.agu.busy = true → VMUFront.AguInv x.1) ?_ ?_ x hagu
      · rintro ⟨s, g⟩ ⟨hs, rfl⟩ hb
        rw [hs.agu] at hb
        cases hb
      · rintro ⟨s, g⟩ i ⟨s', g'⟩ - hinv ⟨hwait, rfl, rfl⟩
        exact VMUFront.AguInv.step hinv hwait
    exact ⟨_, (hheld x h.of_restrict).held (hinv hb).busy, (hinv hb).addr⟩

/-! ### Runs -/

namespace VMUControl

theorem two_pos : 0 < 2 := Nat.succ_pos 1

def zeroOp : VMUOp := ⟨0, ⟨VMUFn.VM_ULD, VMUFn.MT_D⟩⟩

def start : VMUFront 2 2 where
  control :=
    { cmdq := ⟨⟨⟨0, two_pos⟩, ⟨0, two_pos⟩, false⟩, fun _ => zeroOp⟩
      addrq := ⟨⟨⟨0, two_pos⟩, ⟨0, two_pos⟩, false⟩, fun _ => ⟨0, 0⟩⟩
      cmdHold := zeroOp
      addrHold := ⟨0, 0⟩
      busy := false }
  agu := ⟨false, 0, 0⟩

theorem reachable_start : (VMUFront.machine 2 2).Reachable (start, ⟨[], [], []⟩) :=
  .init ⟨⟨rfl, rfl, rfl, rfl⟩, rfl⟩

theorem reachable_start_paired :
    ((VMUFront.machine 2 2).restrict fun x _ => x.1.control.Paired).Reachable
      (start, ⟨[], [], []⟩) :=
  .init ⟨⟨rfl, rfl, rfl, rfl⟩, rfl⟩

theorem reachable_start_waiting :
    ((VMUFront.machine 2 2).restrict fun x i => i.control.addrBusy = x.1.agu.busy).Reachable
      (start, ⟨[], [], []⟩) :=
  .init ⟨⟨rfl, rfl, rfl, rfl⟩, rfl⟩

/-- A load of a vector of four elements. -/
def load : VMUOp := ⟨4, ⟨VMUFn.VM_VLD, VMUFn.MT_D⟩⟩

/-- Something comes in. -/
def offer (cmd : Option VMUOp) (addr : Option VMUAddressOp) : VMUFrontIn :=
  ⟨⟨cmd, addr, false, false⟩, none, true, false⟩

/-- A load that comes with its base and its stride. -/
def together : List VMUFrontIn := [offer (some load) (some ⟨4096, 8⟩), offer none none]

/-- Two commands of the microthreads, and a load of a vector that comes with its base and stride
while the control is busy with the first of them. -/
def behindMicrothreads : List VMUFrontIn :=
  [offer (some zeroOp) none, offer (some zeroOp) none, offer (some load) (some ⟨4096, 8⟩)] ++
    List.replicate 3 (offer none none)

end VMUControl

/-- The state and the log after the load. -/
def VMUControl.afterLoad : VMUFront 2 2 × VMULog :=
  Machine.cycles VMUFront.next VMUFront.note VMUControl.together (VMUControl.start, ⟨[], [], []⟩)

/-- A load that comes with its base and its stride is started with them. -/
theorem vmuControl_in_order_together :
    afterLoad.2.InOrder afterLoad.1.control ∧
      afterLoad.2.Strides afterLoad.1 := by
  have hpaired := vmuControl_in_order 2 2 afterLoad (Machine.reachable_restrict_cycles
    VMUControl.reachable_start_paired VMUControl.together ⟨fun _ => rfl, fun _ => rfl, trivial⟩)
  exact ⟨hpaired.1, hpaired.2 (Machine.reachable_restrict_cycles
    VMUControl.reachable_start_waiting VMUControl.together ⟨rfl, rfl, trivial⟩)⟩

/-- **A command is dropped.** When the second command is started, the entry of the load goes with
it, and the load is taken from its queue without being started. -/
theorem vmuControl_drops_command :
    ¬ ∀ x, (VMUFront.machine 2 2).Reachable x → x.2.InOrder x.1.control := by
  intro hall
  have hcmds := congrArg List.length (hall _ (Machine.reachable_cycles
    VMUControl.reachable_start VMUControl.behindMicrothreads)).cmds
  exact absurd hcmds (by decide)

end Hwacha

end RiscvSoc
