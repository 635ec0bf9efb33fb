import RiscvSoc.Hwacha.Dispatch
import RiscvSoc.Lib.TaggedRing
import RiscvSoc.Lib.VecMux

/-!
# The buffers of the instruction window

`Buffer` and `CounterVec` from `hwacha/src/main/scala/util.scala`. Both are circular; the place an
entry gets is its tag, through which it is changed while it is held. A `Buffer` holds words. A
`CounterVec` holds a counter and a flag for each entry: what is under way for it, and whether there
is more to come.

## What is asked of the surroundings

The pointers wrap around where their bits end, so the number of entries is a power of two from two
on. In a `CounterVec` each counter has one line for counting up and one for counting down, and is
not cleared when its entry is taken. So of the three sources that count an entry no two may count it
the same way in one cycle, an entry is only entered where the counter is zero, and the count stays
in range. The flag is set through a register with the place that was filled last, which says 0 when
there is none yet.
-/

namespace RiscvSoc

namespace Hwacha

open Bits RingPtrs

variable {α : Type} {depth : ℕ}

/-! ### Pointers -/

def log2Down (n : ℕ) : ℕ := if n = 1 then 1 else Nat.log 2 n

/-- A side of a handshake is ready unless `b`. -/
theorem eq_false_of_and_not {a b : Bool} (h : (a && !b) = true) : b = false := by
  rw [Bool.and_eq_true, Bool.not_eq_true'] at h
  exact h.2

/-- A number of `ADDR_SIZE` bits. -/
abbrev AIWTag (depth : ℕ) : Type := Fin (2 ^ log2Up depth)

structure BufferPtrs (depth : ℕ) where
  readPtr : AIWTag depth
  writePtr : AIWTag depth
  full : Bool

namespace BufferPtrs

variable (p : BufferPtrs depth)

def empty : Bool := !p.full && decide (p.readPtr = p.writePtr)

def writePtrNext (doEnq : Bool) : AIWTag depth := if doEnq then p.writePtr + 1 else p.writePtr

def next (doEnq doDeq : Bool) : BufferPtrs depth where
  readPtr := if doDeq then p.readPtr + 1 else p.readPtr
  writePtr := p.writePtrNext doEnq
  full :=
    if doEnq && !doDeq && decide (p.writePtrNext doEnq = p.readPtr) then true
    else if doDeq && p.full then false
    else p.full

structure IsReset : Prop where
  readPtr : p.readPtr = 0
  writePtr : p.writePtr = 0
  full : p.full = false

/-- When the buffer is full the pointers meet. -/
def Ok : Prop := p.full = true → p.readPtr = p.writePtr

/-- The pointers of a ring. -/
def ring : RingPtrs (2 ^ log2Up depth) := ⟨p.writePtr, p.readPtr, p.full⟩

variable {p} {doEnq doDeq : Bool}

theorem Ok.next (hok : p.Ok) (henq : doEnq = true → p.full = false) : (p.next doEnq doDeq).Ok := by
  intro hfull
  rw [BufferPtrs.next] at hfull ⊢
  dsimp only at hfull ⊢
  split at hfull
  · rename_i h
    simp only [Bool.and_eq_true, Bool.not_eq_true', decide_eq_true_eq] at h
    obtain ⟨⟨-, rfl⟩, hmeet⟩ := h
    exact hmeet.symm
  · split at hfull
    · cases hfull
    · rename_i hkeep
      rw [Bool.and_eq_true, not_and_or] at hkeep
      have hdeq : doDeq = false := Bool.not_eq_true _ ▸ hkeep.resolve_right (not_not.mpr hfull)
      have hno : doEnq = false := by
        rw [Bool.eq_false_iff]
        intro h
        rw [henq h] at hfull
        cases hfull
      rw [hdeq, hno]
      exact hok hfull

theorem ring_full (hok : p.Ok) : p.ring.full = p.full := by
  rw [RingPtrs.full, ring]
  cases hfull : p.full with
  | false => exact Bool.and_false _
  | true => rw [Bool.and_true, decide_eq_true (hok hfull).symm]

theorem ring_empty : p.ring.empty = p.empty := by
  rw [RingPtrs.empty, ring, empty, Bool.and_comm]
  exact congrArg _ (decide_eq_decide.mpr eq_comm)

theorem tags_next (henq : doEnq = true → p.full = false) :
    (p.next doEnq doDeq).ring.tags = (p.ring.next doEnq doDeq).tags := by
  refine tags_congr rfl rfl fun hmeet => ?_
  have hmeet' : (p.next doEnq doDeq).writePtr = (p.next doEnq doDeq).readPtr := hmeet
  show (p.next doEnq doDeq).full = if doEnq != doDeq then doEnq else p.full
  rw [BufferPtrs.next] at hmeet' ⊢
  dsimp only at hmeet' ⊢
  cases doEnq with
  | false =>
    cases doDeq with
    | false => rfl
    | true => cases p.full <;> rfl
  | true =>
    cases doDeq with
    | false => exact if_pos (decide_eq_true hmeet')
    | true => rw [henq rfl]; rfl

theorem tagged_next (ram : AIWTag depth → α) (henq : doEnq = true → p.full = false) :
    (p.next doEnq doDeq).ring.tagged ram = (p.ring.next doEnq doDeq).tagged ram := by
  rw [tagged, tags_next henq, tagged]

theorem IsReset.ok (h : p.IsReset) : p.Ok := by
  intro hfull
  rw [h.full] at hfull
  cases hfull

theorem IsReset.tags (h : p.IsReset) : p.ring.tags = [] := by
  refine held_eq_nil ?_
  rw [ring_empty, empty, h.full, h.readPtr, h.writePtr]
  exact decide_eq_true (rfl : (0 : AIWTag depth) = 0)

theorem full_eq (hok : p.Ok) (hpow : 2 ^ log2Up depth = depth) :
    (!p.full) = decide (p.ring.tags.length < depth) := by
  have hle := count_le (p := p.ring)
  rw [← ring_full hok, RingPtrs.full_eq, length_tags]
  by_cases h : p.ring.count = 2 ^ log2Up depth
  · rw [decide_eq_true h, decide_eq_false (by omega), Bool.not_true]
  · rw [decide_eq_false h, decide_eq_true (by omega), Bool.not_false]

theorem empty_eq : p.empty = p.ring.tags.isEmpty := by
  rw [← ring_empty, RingPtrs.empty_eq, ← length_tags]
  cases p.ring.tags <;> rfl

end BufferPtrs

/-! ### Words -/

structure Buffer (α : Type) (depth : ℕ) where
  ptrs : BufferPtrs depth
  dataArray : Fin depth → α

structure BufferIn (α : Type) (depth : ℕ) where
  enq : Option α
  deqReady : Bool
  update : Option (AIWTag depth × α)

namespace Buffer

variable (s : Buffer α depth) (i : BufferIn α depth)

def enqReady : Bool := !s.ptrs.full

def deqValid : Bool := !s.ptrs.empty

def deqBits [NeZero depth] : α := VecMux.read s.dataArray s.ptrs.readPtr

def rtag : AIWTag depth := s.ptrs.writePtr

def doEnq : Bool := i.enq.isSome && s.enqReady

def doDeq : Bool := i.deqReady && s.deqValid

def dataNext : Fin depth → α :=
  let enqueued := match i.enq with
    | some bits => if s.doEnq i then VecMux.write s.dataArray s.ptrs.writePtr bits else s.dataArray
    | none => s.dataArray
  match i.update with
    | some (addr, data) => VecMux.write enqueued addr data
    | none => enqueued

def next : Buffer α depth := ⟨s.ptrs.next (s.doEnq i) (s.doDeq i), s.dataNext i⟩

def IsReset : Prop := s.ptrs.IsReset

/-- The word that enters, with the tag it gets. -/
def entering : List (AIWTag depth × α) :=
  match i.enq with
  | some bits => if s.enqReady then [(s.rtag, bits)] else []
  | none => []

/-- An update replaces the word with its tag. -/
def updated (t : AIWTag depth) (x : α) : α :=
  match i.update with
  | some (addr, data) => if t = addr then data else x
  | none => x

/-- One cycle of the words that are held: the first one leaves, one enters, one is replaced. -/
def heldNext (h : List (AIWTag depth × α)) : List (AIWTag depth × α) :=
  ((if i.deqReady then h.tail else h) ++ s.entering i).map fun e => (e.1, updated i e.1 e.2)

/-- What the buffer shows of the words it holds. -/
structure Shows [NeZero depth] (h : List (AIWTag depth × α)) : Prop where
  ready : s.enqReady = decide (h.length < depth)
  valid : s.deqValid = !h.isEmpty
  bits : ∀ e ∈ h.head?, s.deqBits = e.2
  nodup : (h.map Prod.fst).Nodup

/-- The circuit, and the queue next to it. -/
def machine (α : Type) (depth : ℕ) :
    Machine (Buffer α depth × List (AIWTag depth × α)) (BufferIn α depth) :=
  (Machine.clocked IsReset next).observe [] heldNext

/-- What the registers hold. -/
def held [NeZero depth] : List (AIWTag depth × α) :=
  s.ptrs.ring.tagged fun t => VecMux.read s.dataArray t

variable {s i} [NeZero depth]

theorem length_held : s.held.length = s.ptrs.ring.tags.length := by
  rw [held, length_tagged, length_tags]

theorem enqReady_eq (hok : s.ptrs.Ok) (hpow : 2 ^ log2Up depth = depth) :
    s.enqReady = decide (s.held.length < depth) := by
  rw [length_held]
  exact BufferPtrs.full_eq hok hpow

theorem deqValid_eq : s.deqValid = !s.held.isEmpty := by
  rw [deqValid, BufferPtrs.empty_eq, held, tagged]
  cases s.ptrs.ring.tags <;> rfl

theorem read_dataNext (hpow : 2 ^ log2Up depth = depth) (k : AIWTag depth) {x : α}
    (hx : s.doEnq i = true → i.enq = some x) : VecMux.read (s.dataNext i) k =
      updated i k (if s.doEnq i = true ∧ k = s.rtag then x else VecMux.read s.dataArray k) := by
  have hlt (t : AIWTag depth) : t.val < depth := t.isLt.trans_eq hpow
  have henq : VecMux.read (match i.enq with
      | some bits =>
        if s.doEnq i then VecMux.write s.dataArray s.ptrs.writePtr bits else s.dataArray
      | none => s.dataArray) k =
      if s.doEnq i = true ∧ k = s.rtag then x else VecMux.read s.dataArray k := by
    cases hdo : s.doEnq i with
    | false =>
      rw [if_neg fun h => Bool.false_ne_true h.1]
      cases i.enq <;> rfl
    | true =>
      rw [hx hdo]
      dsimp only
      rw [if_pos rfl, VecMux.read_write _ (hlt _) (hlt _)]
      exact if_congr (by rw [Fin.val_inj, rtag]; simp) rfl rfl
  rw [dataNext, updated]
  cases i.update with
  | none => exact henq
  | some u =>
    dsimp only
    rw [VecMux.read_write _ (hlt _) (hlt _), henq]
    exact if_congr Fin.val_inj rfl rfl

theorem held_next (hok : s.ptrs.Ok) (hpow : 2 ^ log2Up depth = depth) :
    (s.next i).held = s.heldNext i s.held := by
  have hfull : s.doEnq i = true → s.ptrs.full = false := eq_false_of_and_not
  have hempty : s.doDeq i = true → s.ptrs.empty = false := eq_false_of_and_not
  have hleft : (if s.doDeq i then s.held.tail else s.held) =
      if i.deqReady then s.held.tail else s.held := by
    rw [doDeq, deqValid_eq]
    cases i.deqReady <;> cases s.held <;> rfl
  obtain ⟨x, hx⟩ : ∃ x, s.doEnq i = true → i.enq = some x := by
    cases henq : i.enq with
    | none => exact ⟨s.deqBits, fun h => by rw [doEnq, henq] at h; cases h⟩
    | some x => exact ⟨x, fun _ => rfl⟩
  have hentering : s.entering i = if s.doEnq i then [(s.rtag, x)] else [] := by
    rw [entering]
    cases hdo : s.doEnq i with
    | false =>
      rw [doEnq] at hdo
      cases henq : i.enq with
      | none => rfl
      | some y =>
        rw [henq, Option.isSome_some, Bool.true_and] at hdo
        rw [hdo]
        rfl
    | true =>
      rw [hx hdo]
      rw [doEnq, Bool.and_eq_true] at hdo
      exact if_pos hdo.2
  rw [heldNext, ← hleft, hentering]
  refine (BufferPtrs.tagged_next _ hfull).trans ?_
  refine RingPtrs.tagged_next (g := updated i) (fun h => ?_) (fun h => ?_) fun k _ => ?_
  · rw [BufferPtrs.ring_full hok]
    exact hfull h
  · rw [BufferPtrs.ring_empty]
    exact hempty h
  · exact read_dataNext hpow k hx

end Buffer

/-! ### Counters -/

/-- Each counter counts up to `depth`. -/
abbrev AIWCount (depth : ℕ) : Type := BitVec (log2Down depth + 1)

structure CounterVec (depth : ℕ) where
  ptrs : BufferPtrs depth
  lastWritePtr : AIWTag depth
  counter : Fin depth → AIWCount depth
  arrayLast : Fin depth → Bool

structure CounterVecIn (depth : ℕ) where
  enq : Option Bool
  deqReady : Bool
  updateFromIssue : Option (AIWTag depth)
  updateFromSeq : Option (AIWTag depth)
  /-- Only `valid`; the tag is not looked at. -/
  updateFromEvac : Bool
  markLast : Bool

/-- An entry: how often its tag was counted up less how often down, and its flag. -/
structure AIWCounted (depth : ℕ) where
  number : ℤ
  last : Bool
  deriving DecidableEq

/-- The entries, and the tag of the one that entered last. -/
structure CounterLog (depth : ℕ) where
  held : List (AIWTag depth × AIWCounted depth)
  newest : Option (AIWTag depth)

namespace CounterVec

variable (s : CounterVec depth) (i : CounterVecIn depth) (log : CounterLog depth)

section Circuit

def enqReady : Bool := !s.ptrs.full

def deqValid : Bool := !s.ptrs.empty

def doEnq : Bool := i.enq.isSome && s.enqReady

def doDeq : Bool := i.deqReady && s.deqValid

/-- `io.enq.bits`. -/
def enqBits : Bool := i.enq.getD false

/-- A line for each entry, driven at one place. -/
def drive (on : Bool) (addr : AIWTag depth) (bit : Bool) (v : Fin depth → Bool) :
    Fin depth → Bool :=
  if on then VecMux.write v addr bit else v

def incVec : Fin depth → Bool :=
  let enqueued := drive (s.doEnq i) s.ptrs.writePtr (enqBits i) fun _ => false
  match i.updateFromIssue with
  | some t => VecMux.write enqueued t true
  | none => enqueued

def decVec : Fin depth → Bool :=
  let counted := match i.updateFromSeq with
    | some t => VecMux.write (fun _ => false) t true
    | none => fun _ => false
  drive i.updateFromEvac s.ptrs.readPtr true counted

def nextLast : Fin depth → Bool :=
  drive i.markLast s.lastWritePtr true
    (drive (s.doEnq i) s.ptrs.writePtr (enqBits i) s.arrayLast)

def next : CounterVec depth where
  ptrs := s.ptrs.next (s.doEnq i) (s.doDeq i)
  lastWritePtr := if s.doEnq i then s.ptrs.writePtr else s.lastWritePtr
  counter k := qcounter (s.counter k) (s.incVec i k) (s.decVec i k)
  arrayLast := s.nextLast i

def rtag : AIWTag depth := s.ptrs.writePtr

variable [NeZero depth]

/-- The counter is zero. -/
def deqBits : Bool := VecMux.read (fun k => decide (s.counter k = 0)) s.ptrs.readPtr

def deqLast : Bool := VecMux.read s.arrayLast s.ptrs.readPtr

/-- What the counter of a tag says. -/
def number (t : AIWTag depth) : ℕ := (VecMux.read s.counter t).toNat

end Circuit

structure IsReset : Prop where
  ptrs : s.ptrs.IsReset
  lastWritePtr : s.lastWritePtr = 0
  counter : ∀ k, s.counter k = 0

/-! ### The queue of counted entries -/

/-- The entries that stay, and the one that enters. -/
def kept : List (AIWTag depth × AIWCounted depth) :=
  (if i.deqReady then log.held.tail else log.held) ++
    if s.doEnq i then [(s.rtag, ⟨0, enqBits i⟩)] else []

/-- The tag of the oldest entry, or that of the one that enters if there is no other. -/
def front : Option (AIWTag depth) :=
  (log.held.map Prod.fst ++ if s.doEnq i then [s.rtag] else []).head?

/-- How often a tag is counted up: by its own entry, and by the issue unit. -/
def increments (t : AIWTag depth) : ℕ :=
  (decide (s.doEnq i = true ∧ t = s.rtag) && enqBits i).toNat +
    (decide (i.updateFromIssue = some t)).toNat

/-- How often it is counted down: by the sequencer, and by the evacuation. -/
def decrements (t : AIWTag depth) : ℕ :=
  (decide (i.updateFromSeq = some t)).toNat +
    (i.updateFromEvac && decide (s.front i log = some t)).toNat

/-- An entry is counted, and marked if it is the newest. -/
def counted (t : AIWTag depth) (e : AIWCounted depth) : AIWCounted depth where
  number := e.number + s.increments i t - s.decrements i log t
  last := e.last || i.markLast && decide (log.newest = some t)

/-- One cycle of the entries that are held. -/
def logNext : CounterLog depth where
  held := (s.kept i log).map fun e => (e.1, s.counted i log e.1 e.2)
  newest := if s.doEnq i then some s.rtag else log.newest

/-- What is asked of a cycle. -/
structure Fits [NeZero depth] : Prop where
  /-- An entry finds the counter of its tag at zero. -/
  fresh : s.doEnq i = true → s.number s.rtag = 0
  /-- No two sources count the same entry in the same way. -/
  once : ∀ e ∈ s.kept i log, s.increments i e.1 ≤ 1 ∧ s.decrements i log e.1 ≤ 1
  /-- The counters are wide enough. -/
  range : ∀ e ∈ (s.logNext i log).held, 0 ≤ e.2.number ∧ e.2.number < 2 ^ (log2Down depth + 1)
  /-- An entry is not marked when the first one only enters. -/
  mark : s.doEnq i = true → i.markLast = true → log.newest ≠ none

/-- What the circuit shows of the entries it holds. -/
structure Shows [NeZero depth] : Prop where
  ready : s.enqReady = decide (log.held.length < depth)
  valid : s.deqValid = !log.held.isEmpty
  number : ∀ e ∈ log.held, (s.number e.1 : ℤ) = e.2.number
  last : ∀ e ∈ log.held, VecMux.read s.arrayLast e.1 = e.2.last
  front : ∀ e ∈ log.held.head?, s.deqBits = decide (e.2.number = 0) ∧ s.deqLast = e.2.last
  nodup : (log.held.map Prod.fst).Nodup

/-- The circuit, and the queue next to it. -/
def machine (depth : ℕ) : Machine (CounterVec depth × CounterLog depth) (CounterVecIn depth) :=
  (Machine.clocked IsReset next).observe ⟨[], none⟩ logNext

/-! ### What the lines say -/

/-- What the registers say of a tag. -/
def entry [NeZero depth] (t : AIWTag depth) : AIWCounted depth :=
  ⟨s.number t, VecMux.read s.arrayLast t⟩

/-- The registers hold the queue. -/
structure Tracks [NeZero depth] : Prop where
  ok : s.ptrs.Ok
  held : log.held = s.ptrs.ring.tagged s.entry
  newest : ∀ t, log.newest = some t → t = s.lastWritePtr
  none : log.newest = none → log.held = []

variable {s i log}

theorem drive_eq (hpow : 2 ^ log2Up depth = depth) {on bit : Bool} {addr : AIWTag depth}
    {v : Fin depth → Bool} (t : AIWTag depth) :
    drive on addr bit v ⟨t, t.isLt.trans_eq hpow⟩ =
      if on = true ∧ t = addr then bit else v ⟨t, t.isLt.trans_eq hpow⟩ := by
  have hwrite := VecMux.write_eq v ⟨addr, addr.isLt.trans_eq hpow⟩ ⟨t, t.isLt.trans_eq hpow⟩ bit
  rw [drive]
  cases on with
  | false => exact (if_neg fun h => Bool.false_ne_true h.1).symm
  | true =>
    refine hwrite.trans (if_congr ?_ rfl rfl)
    rw [Fin.mk.injEq, Fin.val_inj]
    exact (and_iff_right rfl).symm

theorem drive_isSome (addr : Option (AIWTag depth)) (v : Fin depth → Bool) :
    (match addr with
      | some t => VecMux.write v t true
      | none => v) = drive addr.isSome (addr.getD 0) true v := by
  cases addr <;> rfl

theorem isSome_and {addr : Option (AIWTag depth)} {t : AIWTag depth} :
    (addr.isSome = true ∧ t = addr.getD 0) ↔ addr = some t := by
  cases addr with
  | none => simp
  | some u => simp [eq_comm]

theorem ite_eq_or (P Q : Prop) [Decidable P] [Decidable Q] (bit : Bool) :
    (if Q then true else if P then bit else false) = (decide P && bit || decide Q) := by
  by_cases hP : P <;> by_cases hQ : Q <;> simp [hP, hQ]

theorem incVec_eq (hpow : 2 ^ log2Up depth = depth) (t : AIWTag depth) :
    s.incVec i ⟨t, t.isLt.trans_eq hpow⟩ =
      (decide (s.doEnq i = true ∧ t = s.rtag) && enqBits i ||
        decide (i.updateFromIssue = some t)) := by
  rw [incVec, drive_isSome, drive_eq hpow, drive_eq hpow, ite_eq_or, rtag]
  exact congrArg _ (decide_eq_decide.mpr isSome_and)

theorem decVec_eq (hpow : 2 ^ log2Up depth = depth) (t : AIWTag depth) :
    s.decVec i ⟨t, t.isLt.trans_eq hpow⟩ =
      (decide (i.updateFromSeq = some t) || i.updateFromEvac && decide (t = s.ptrs.readPtr)) := by
  rw [decVec, drive_isSome, drive_eq hpow, drive_eq hpow, ite_eq_or, Bool.and_true]
  congr 1
  · exact decide_eq_decide.mpr isSome_and
  · rw [Bool.decide_and, Bool.decide_eq_true]

theorem toNat_or {a b : Bool} (h : a.toNat + b.toNat ≤ 1) :
    (a || b).toNat = a.toNat + b.toNat := by
  cases a <;> cases b <;> first | rfl | exact absurd h (by decide)

theorem qcounter_toNat {sz : ℕ} {count : BitVec sz} {inc dec : Bool}
    (hlo : 0 ≤ (count.toNat : ℤ) + inc.toNat - dec.toNat)
    (hhi : (count.toNat : ℤ) + inc.toNat - dec.toNat < 2 ^ sz) :
    ((qcounter count inc dec).toNat : ℤ) = count.toNat + inc.toNat - dec.toNat := by
  have hlt := count.isLt
  have hpow : ((2 ^ sz : ℕ) : ℤ) = 2 ^ sz := by push_cast; rfl
  rw [← hpow] at hhi
  cases inc <;> cases dec <;> simp only [qcounter, Bool.toNat_true, Bool.toNat_false] at hlo hhi ⊢
  · simp
  · have hle : 1 ≤ count.toNat := by omega
    have hone : (BitVec.ofNat sz 1).toNat = 1 := by
      rw [BitVec.toNat_ofNat]
      exact Nat.mod_eq_of_lt (by omega)
    have hsub : (count - BitVec.ofNat sz 1).toNat = count.toNat - 1 := by
      rw [BitVec.toNat_sub_of_le (by rw [BitVec.le_def]; omega), hone]
    simp only [Bool.false_eq_true, if_false]
    show ((count - BitVec.ofNat sz 1).toNat : ℤ) = _
    rw [hsub]
    omega
  · have hadd : (count + BitVec.ofNat sz 1).toNat = count.toNat + 1 := by
      rw [BitVec.toNat_add, BitVec.toNat_ofNat, Nat.add_mod_mod]
      exact Nat.mod_eq_of_lt (by omega)
    show ((count + BitVec.ofNat sz 1).toNat : ℤ) = _
    rw [hadd]
    omega
  · simp

/-! ### One cycle -/

variable [NeZero depth]

namespace Tracks

variable (h : Tracks s log)

include h

theorem length_held : log.held.length = s.ptrs.ring.tags.length := by
  rw [h.held, length_tagged, length_tags]

theorem enqReady (hpow : 2 ^ log2Up depth = depth) :
    s.enqReady = decide (log.held.length < depth) := by
  rw [h.length_held]
  exact BufferPtrs.full_eq h.ok hpow

theorem deqValid : s.deqValid = !log.held.isEmpty := by
  rw [CounterVec.deqValid, BufferPtrs.empty_eq, h.held, tagged]
  cases s.ptrs.ring.tags <;> rfl

theorem shows (hpow : 2 ^ log2Up depth = depth) : s.Shows log := by
  have hentry (e) (he : e ∈ log.held) : s.entry e.1 = e.2 := by
    rw [h.held] at he
    exact (mem_tagged.mp he).2.symm
  refine ⟨h.enqReady hpow, h.deqValid, ?_, ?_, ?_, ?_⟩
  · intro e he
    exact congrArg AIWCounted.number (hentry e he)
  · intro e he
    exact congrArg AIWCounted.last (hentry e he)
  · intro e he
    cases hempty : s.ptrs.ring.empty with
    | true =>
      rw [h.held, tagged, RingPtrs.tags, held_eq_nil hempty] at he
      cases he
    | false =>
      rw [h.held, head?_tagged hempty, Option.mem_some_iff] at he
      have hlt : s.ptrs.readPtr.val < depth := s.ptrs.readPtr.isLt.trans_eq hpow
      have hcounter := VecMux.read_eq s.counter ⟨s.ptrs.readPtr, hlt⟩
      have hbits := VecMux.read_eq (fun k => decide (s.counter k = 0)) ⟨s.ptrs.readPtr, hlt⟩
      rw [← he]
      refine ⟨hbits.trans ?_, rfl⟩
      rw [← hcounter]
      refine decide_eq_decide.mpr ?_
      show _ ↔ ((VecMux.read s.counter _).toNat : ℤ) = 0
      rw [Int.natCast_eq_zero, ← BitVec.toNat_inj]
      show _ = (0#_).toNat ↔ _
      rw [BitVec.toNat_ofNat, Nat.zero_mod]
      rfl
  · rw [h.held, map_fst_tagged]
    exact nodup_tags

theorem front (hne : log.held ≠ [] ∨ s.doEnq i = true) : s.front i log = some s.ptrs.readPtr := by
  rw [CounterVec.front, h.held, map_fst_tagged]
  cases hempty : s.ptrs.ring.empty with
  | true =>
    have htags : s.ptrs.ring.tags = [] := held_eq_nil hempty
    have henters : s.doEnq i = true := by
      refine hne.resolve_left fun hheld => hheld ?_
      rw [h.held, tagged, htags, List.map_nil]
    rw [RingPtrs.empty, Bool.and_eq_true, decide_eq_true_eq] at hempty
    rw [htags, if_pos henters]
    exact congrArg some hempty.1
  | false => rw [List.head?_append, head?_tags hempty, Option.some_or]; rfl

theorem kept_eq : s.kept i log =
    (if s.doDeq i then (s.ptrs.ring.tagged s.entry).tail else s.ptrs.ring.tagged s.entry) ++
      if s.doEnq i then [(s.rtag, ⟨0, enqBits i⟩)] else [] := by
  rw [kept, doDeq, h.deqValid, ← h.held]
  refine congrArg (· ++ _) ?_
  cases i.deqReady <;> cases log.held <;> rfl

theorem enq_room : s.doEnq i = true → s.ptrs.ring.full = false := by
  intro hdo
  rw [BufferPtrs.ring_full h.ok]
  exact eq_false_of_and_not hdo

omit h [NeZero depth] in
theorem deq_some : s.doDeq i = true → s.ptrs.ring.empty = false := by
  intro hdo
  rw [BufferPtrs.ring_empty]
  exact eq_false_of_and_not hdo

/-- What the registers say of an entry that stays or enters, before it is counted. -/
theorem mem_kept {k : AIWTag depth}
    (hk : k ∈ (s.ptrs.ring.next (s.doEnq i) (s.doDeq i)).tags) :
    (k, if s.doEnq i = true ∧ k = s.rtag then ⟨0, enqBits i⟩ else s.entry k) ∈ s.kept i log := by
  have hmem : (k, if s.doEnq i = true ∧ k = s.rtag then ⟨0, enqBits i⟩ else s.entry k) ∈
      (s.ptrs.ring.next (s.doEnq i) (s.doDeq i)).tagged fun k =>
        if s.doEnq i = true ∧ k = s.ptrs.ring.enq then ⟨0, enqBits i⟩ else s.entry k :=
    mem_tagged.mpr ⟨hk, rfl⟩
  rw [RingPtrs.tagged_next (g := fun _ e => e) h.enq_room deq_some fun _ _ => rfl,
    List.map_id''] at hmem
  · rw [h.kept_eq]
    exact hmem
  · exact fun _ => rfl

theorem lines (hpow : 2 ^ log2Up depth = depth) {e : AIWTag depth × AIWCounted depth}
    (he : e ∈ s.kept i log)
    (honce : s.increments i e.1 ≤ 1 ∧ s.decrements i log e.1 ≤ 1) :
    (s.incVec i ⟨e.1, e.1.isLt.trans_eq hpow⟩).toNat = s.increments i e.1 ∧
      (s.decVec i ⟨e.1, e.1.isLt.trans_eq hpow⟩).toNat = s.decrements i log e.1 := by
  have hne : log.held ≠ [] ∨ s.doEnq i = true := by
    by_contra hno
    rw [not_or, not_not] at hno
    rw [kept, hno.1, if_neg hno.2, List.tail_nil, ite_self] at he
    cases he
  have hinc : s.increments i e.1 = (decide (s.doEnq i = true ∧ e.1 = s.rtag) &&
      enqBits i).toNat + (decide (i.updateFromIssue = some e.1)).toNat := by
    rw [increments]
  have hdec : s.decrements i log e.1 = (decide (i.updateFromSeq = some e.1)).toNat +
      (i.updateFromEvac && decide (e.1 = s.ptrs.readPtr)).toNat := by
    rw [decrements, h.front hne]
    simp only [Option.some.injEq, eq_comm]
  rw [hinc, hdec] at honce ⊢
  rw [incVec_eq hpow, decVec_eq hpow]
  exact ⟨toNat_or honce.1, toNat_or honce.2⟩

/-- **What a cycle does to an entry** that stays or enters. -/
theorem entry_next (hpow : 2 ^ log2Up depth = depth) (hfits : s.Fits i log) {k : AIWTag depth}
    (hk : k ∈ (s.ptrs.ring.next (s.doEnq i) (s.doDeq i)).tags) :
    (s.next i).entry k = s.counted i log k
      (if s.doEnq i = true ∧ k = s.rtag then ⟨0, enqBits i⟩ else s.entry k) := by
  have hlt : k.val < depth := k.isLt.trans_eq hpow
  have hmem := h.mem_kept hk
  obtain ⟨hinc, hdec⟩ := h.lines hpow hmem (hfits.once _ hmem)
  have hrange := hfits.range _ (List.mem_map.mpr ⟨_, hmem, rfl⟩)
  have hcounter : s.number k = (s.counter ⟨k, hlt⟩).toNat :=
    congrArg BitVec.toNat (VecMux.read_eq s.counter ⟨k, hlt⟩)
  -- the count so far is what the counter says
  have hbase : (if s.doEnq i = true ∧ k = s.rtag then (⟨0, enqBits i⟩ : AIWCounted depth)
      else s.entry k).number = (s.counter ⟨k, hlt⟩).toNat := by
    rw [← hcounter]
    split
    · rename_i hnew
      rw [hnew.2, hfits.fresh hnew.1]
      rfl
    · rfl
  have hnumber : ((s.next i).number k : ℤ) = (s.counter ⟨k, hlt⟩).toNat +
      s.increments i k - s.decrements i log k := by
    have hread := congrArg BitVec.toNat (VecMux.read_eq (s.next i).counter ⟨k, hlt⟩)
    rw [counted, hbase, ← hinc, ← hdec] at hrange
    rw [← hinc, ← hdec, number, hread]
    exact qcounter_toNat hrange.1 hrange.2
  have hlast : VecMux.read (s.next i).arrayLast k =
      ((if s.doEnq i = true ∧ k = s.rtag then (⟨0, enqBits i⟩ : AIWCounted depth)
        else s.entry k).last || i.markLast && decide (log.newest = some k)) := by
    have hread := VecMux.read_eq (s.next i).arrayLast ⟨k, hlt⟩
    refine hread.trans ?_
    show s.nextLast i ⟨k, hlt⟩ = _
    rw [nextLast, drive_eq hpow, drive_eq hpow]
    have hold : (if s.doEnq i = true ∧ k = s.ptrs.writePtr then enqBits i
        else s.arrayLast ⟨k, hlt⟩) = (if s.doEnq i = true ∧ k = s.rtag then
          (⟨0, enqBits i⟩ : AIWCounted depth) else s.entry k).last := by
      rw [rtag]
      split
      · rfl
      · exact (VecMux.read_eq s.arrayLast ⟨k, hlt⟩).symm
    rw [hold]
    cases hmark : i.markLast with
    | false => rw [if_neg fun hm => Bool.false_ne_true hm.1, Bool.false_and, Bool.or_false]
    | true =>
      have hnewest : log.newest = some k ↔ k = s.lastWritePtr := by
        refine ⟨h.newest k, ?_⟩
        rintro rfl
        cases hnew : log.newest with
        | none =>
          -- nothing is held, so the entry enters, and is not marked
          have henters : s.doEnq i = true := by
            by_contra hno
            rw [kept, h.none hnew, if_neg hno, List.tail_nil, ite_self] at hmem
            cases hmem
          exact (hfits.mark henters hmark hnew).elim
        | some t => rw [h.newest t hnew]
      rw [Bool.true_and, decide_eq_decide.mpr hnewest]
      by_cases hk : k = s.lastWritePtr
      · rw [if_pos ⟨rfl, hk⟩, decide_eq_true hk, Bool.or_true]
      · rw [if_neg fun hm => hk hm.2, decide_eq_false hk, Bool.or_false]
  rw [entry, hnumber, hlast, counted, hbase]

theorem next (hpow : 2 ^ log2Up depth = depth) (hfits : s.Fits i log) :
    Tracks (s.next i) (s.logNext i log) := by
  refine ⟨h.ok.next fun hdo => ?_, ?_, ?_, ?_⟩
  · rw [← BufferPtrs.ring_full h.ok]
    exact h.enq_room hdo
  · refine Eq.trans ?_ (BufferPtrs.tagged_next _ fun hdo => ?_).symm
    · rw [RingPtrs.tagged_next h.enq_room deq_some fun k hk => h.entry_next hpow hfits hk, logNext,
        h.kept_eq]
      rfl
    · rw [← BufferPtrs.ring_full h.ok]
      exact h.enq_room hdo
  · intro t ht
    show t = if s.doEnq i then s.ptrs.writePtr else s.lastWritePtr
    rw [logNext] at ht
    by_cases hdo : s.doEnq i = true
    · rw [if_pos hdo, Option.some.injEq] at ht
      rw [if_pos hdo, ← ht, rtag]
    · rw [if_neg hdo] at ht
      rw [if_neg hdo]
      exact h.newest t ht
  · intro hnone
    rw [logNext] at hnone ⊢
    by_cases hdo : s.doEnq i = true
    · rw [if_pos hdo] at hnone
      cases hnone
    · rw [if_neg hdo] at hnone
      rw [kept, h.none hnone, if_neg hdo, List.tail_nil, ite_self]
      rfl

end Tracks

theorem IsReset.tracks (h : s.IsReset) : Tracks s ⟨[], none⟩ := by
  refine ⟨h.ptrs.ok, ?_, nofun, fun _ => rfl⟩
  rw [tagged, h.ptrs.tags, List.map_nil]

end CounterVec

namespace CounterVec

/-- The four conditions of `Fits`. -/
inductive FitsPart
  | fresh
  | once
  | range
  | mark
  deriving DecidableEq

/-- One of them. -/
def Meets {depth : ℕ} [NeZero depth] (s : CounterVec depth) (i : CounterVecIn depth)
    (log : CounterLog depth) : FitsPart → Prop
  | .fresh => s.doEnq i = true → s.number s.rtag = 0
  | .once => ∀ e ∈ s.kept i log, s.increments i e.1 ≤ 1 ∧ s.decrements i log e.1 ≤ 1
  | .range => ∀ e ∈ (s.logNext i log).held,
      0 ≤ e.2.number ∧ e.2.number < 2 ^ (log2Down depth + 1)
  | .mark => s.doEnq i = true → i.markLast = true → log.newest ≠ none

instance decidableMeets {depth : ℕ} [NeZero depth] (s : CounterVec depth) (i : CounterVecIn depth)
    (log : CounterLog depth) : ∀ k, Decidable (s.Meets i log k)
  | .fresh => inferInstanceAs (Decidable (_ → _))
  | .once => inferInstanceAs (Decidable (∀ e ∈ _, _))
  | .range => inferInstanceAs (Decidable (∀ e ∈ _, _))
  | .mark => inferInstanceAs (Decidable (_ → _ → _))

theorem forall_fitsPart {P : FitsPart → Prop} :
    (∀ k, P k) ↔ P .fresh ∧ P .once ∧ P .range ∧ P .mark := by
  refine ⟨fun h => ⟨h _, h _, h _, h _⟩, fun h k => ?_⟩
  cases k with
  | fresh => exact h.1
  | once => exact h.2.1
  | range => exact h.2.2.1
  | mark => exact h.2.2.2

theorem fits_iff {depth : ℕ} [NeZero depth] {s : CounterVec depth} {i : CounterVecIn depth}
    {log : CounterLog depth} : s.Fits i log ↔ ∀ k, s.Meets i log k :=
  ⟨fun h => forall_fitsPart.mpr ⟨h.fresh, h.once, h.range, h.mark⟩,
    fun h => ⟨h .fresh, h .once, h .range, h .mark⟩⟩

/-- Three of them. -/
def MeetsOthers {depth : ℕ} [NeZero depth] (k : FitsPart)
    (x : CounterVec depth × CounterLog depth) (i : CounterVecIn depth) : Prop :=
  ∀ j, j ≠ k → x.1.Meets i x.2 j

instance decidableFits {depth : ℕ} [NeZero depth] (s : CounterVec depth) (i : CounterVecIn depth)
    (log : CounterLog depth) : Decidable (s.Fits i log) :=
  decidable_of_iff _ (forall_fitsPart.symm.trans fits_iff.symm)

instance decidableMeetsOthers {depth : ℕ} [NeZero depth] (k : FitsPart)
    (x : CounterVec depth × CounterLog depth) (i : CounterVecIn depth) :
    Decidable (MeetsOthers k x i) := decidable_of_iff _ forall_fitsPart.symm

/-- Nothing is in it. -/
def cleared (depth : ℕ) : CounterVec depth × CounterLog depth :=
  (⟨⟨0, 0, false⟩, 0, fun _ => 0, fun _ => false⟩, ⟨[], none⟩)

end CounterVec

end Hwacha

end RiscvSoc
