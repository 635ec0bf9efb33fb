import RiscvSoc.Lib.Machine
import RiscvSoc.Lib.ShiftReg

/-!
# The flow-through serializer

`FlowThroughSerializer` from `rocket/src/main/scala/util.scala`: a message that carries a line is
sent on as `n` beats, any other as it is. The first beat goes out in the cycle the message comes in,
the others come from a register.

The circuit is ready for a message whenever it is idle, whether or not its consumer is. A message
with data is kept, so a consumer that is not ready gets it later. One without data is not, and
`done` is raised for it all the same. The other exception is a line that is one beat already: the
counter that has been moved past it never meets `wrap` before it has gone around. The data cache
keeps clear of both, its consumer being ready for every message without data and the serializer not
being there for lines of one beat; the circuit itself asks for neither.

What is followed of a beat is the message around the data, and of the data the lowest
`narrowWidth` bits, which is what the consumer is connected to.
-/

namespace RiscvSoc

namespace Serializer

/-- A message: the data, and the rest of it. -/
structure Msg (α : Type) where
  hdr : α
  data : ℕ
  deriving DecidableEq, Repr

/-- A beat: the lowest `narrowWidth` bits of the data, and the rest of the message. -/
structure Beat (α : Type) where
  hdr : α
  data : ℕ
  deriving DecidableEq, Repr

/-- The registers. -/
structure State (α : Type) where
  cnt : ℕ
  rbits : Msg α
  active : Bool

/-- The inputs of a cycle. -/
structure In (α : Type) where
  inValid : Bool
  inBits : Msg α
  outReady : Bool

/-- The outputs of a cycle. -/
structure Out (α : Type) where
  done : Bool
  cnt : ℕ
  inReady : Bool
  outValid : Bool
  outBits : Msg α

section Circuit

variable {α : Type} (n narrowWidth : ℕ) (doSer : Msg α → Bool)

/-- `shifter(cnt)`. A vector of one element has the same one at every index; with more elements the
counter is in range while it is used. -/
def shifter (m : Msg α) (cnt : ℕ) : ℕ := chunk narrowWidth m.data (if n = 1 then 0 else cnt)

def wrap (s : State α) : Bool := decide (s.cnt = n - 1)

def out (s : State α) (i : In α) : Out α where
  done :=
    if s.active then i.outReady && wrap n s
    else i.inValid && !doSer i.inBits
  cnt := s.cnt
  inReady := !s.active
  outValid := s.active || i.inValid
  outBits :=
    if s.active then { s.rbits with data := shifter n narrowWidth s.rbits s.cnt } else i.inBits

def next (s : State α) (i : In α) : State α :=
  if s.active then
    if i.outReady then
      { s with cnt := (s.cnt + 1) % 2 ^ Bits.log2Up n, active := !wrap n s }
    else s
  else if i.inValid && doSer i.inBits then
    { cnt := if i.outReady then 1 else 0, rbits := i.inBits, active := true }
  else s

/-! ### What is asked of it -/

/-- What the consumer takes of a message. -/
def beat (m : Msg α) : Beat α := ⟨m.hdr, chunk narrowWidth m.data 0⟩

/-- What a message is to be sent on as. -/
def beats (m : Msg α) : List (Beat α) :=
  if doSer m then (List.range n).map fun k => ⟨m.hdr, chunk narrowWidth m.data k⟩
  else [beat narrowWidth m]

/-- What has gone in and come out. -/
structure Hist (α : Type) where
  accepted : List (Msg α)
  sent : List (Beat α)

def inFire (s : State α) (i : In α) : Bool := (out n narrowWidth doSer s i).inReady && i.inValid

def outFire (s : State α) (i : In α) : Bool := (out n narrowWidth doSer s i).outValid && i.outReady

def record (s : State α) (i : In α) (h : Hist α) : Hist α where
  accepted := if inFire n narrowWidth doSer s i then h.accepted ++ [i.inBits] else h.accepted
  sent :=
    if outFire n narrowWidth doSer s i then
      h.sent ++ [beat narrowWidth (out n narrowWidth doSer s i).outBits]
    else h.sent

/-- The serializer after reset, with what it has taken and given. -/
def machine : Machine (State α × Hist α) (In α) :=
  (Machine.clocked (fun s : State α => s.cnt = 0 ∧ s.active = false) (next n doSer)).observe
    ⟨[], []⟩ (record n narrowWidth doSer)

/-- All beats of the accepted messages. -/
def expected (h : Hist α) : List (Beat α) := h.accepted.flatMap (beats n narrowWidth doSer)

/-- The output is the beginning of the beats of the accepted messages, and all of them when the
circuit is idle. -/
def Whole (x : State α × Hist α) : Prop :=
  x.2.sent <+: expected n narrowWidth doSer x.2 ∧
    (x.1.active = false → x.2.sent = expected n narrowWidth doSer x.2)

/-- `done` is raised exactly when a beat is taken that completes what was accepted. -/
def DoneRight (x : State α × Hist α) (i : In α) : Prop :=
  (out n narrowWidth doSer x.1 i).done = true ↔
    outFire n narrowWidth doSer x.1 i = true ∧
      (record n narrowWidth doSer x.1 i x.2).sent =
        expected n narrowWidth doSer (record n narrowWidth doSer x.1 i x.2)

/-- A message without data comes in only when the consumer is ready, and a line of one beat only
when it is not. -/
def Clear (s : State α) (i : In α) : Prop :=
  s.active = false → i.inValid = true →
    if doSer i.inBits then n = 1 → i.outReady = false else i.outReady = true

/-- The beats of the registered message that are still to come. -/
def pending (s : State α) : List (Beat α) :=
  if s.active then
    ((List.range n).map fun k => (⟨s.rbits.hdr, chunk narrowWidth s.rbits.data k⟩ : Beat α)).drop
      s.cnt
  else []

/-- Nothing is lost or sent twice. -/
structure Inv (x : State α × Hist α) : Prop where
  sent : x.2.sent ++ pending n narrowWidth x.1 = expected n narrowWidth doSer x.2
  cnt : x.1.active = true → x.1.cnt < n

end Circuit

/-! ### One cycle -/

section Step

variable {α : Type} {n narrowWidth : ℕ} {doSer : Msg α → Bool} {s : State α} {h : Hist α}
  {i : In α}

variable {m : Msg α} {k : ℕ}

theorem drop_beats (hk : k < n) :
    ((List.range n).map fun k => (⟨m.hdr, chunk narrowWidth m.data k⟩ : Beat α)).drop k =
      ⟨m.hdr, chunk narrowWidth m.data k⟩ ::
        ((List.range n).map fun k => (⟨m.hdr, chunk narrowWidth m.data k⟩ : Beat α)).drop
          (k + 1) := by
  rw [List.drop_eq_getElem_cons (by simpa using hk)]
  simp

theorem drop_beats_last :
    ((List.range n).map fun k => (⟨m.hdr, chunk narrowWidth m.data k⟩ : Beat α)).drop n = [] :=
  List.drop_eq_nil_of_le (by simp)

/-- A beat of the register is the next one of its message. -/
theorem beat_shifter (hk : k < n) :
    beat narrowWidth { m with data := shifter n narrowWidth m k } =
      ⟨m.hdr, chunk narrowWidth m.data k⟩ := by
  have hindex : (if n = 1 then 0 else k) = k := by
    split
    · omega
    · rfl
  have hlow (x : ℕ) : chunk narrowWidth (chunk narrowWidth x k) 0 = chunk narrowWidth x k := by
    rw [chunk, Nat.zero_mul, pow_zero, Nat.div_one, Nat.mod_eq_of_lt chunk_lt]
  rw [beat, shifter, hindex, hlow]

theorem expected_append (m : Msg α) (b : List (Beat α)) :
    expected n narrowWidth doSer ⟨h.accepted ++ [m], b⟩ =
      expected n narrowWidth doSer h ++ beats n narrowWidth doSer m := by
  rw [expected, List.flatMap_append, expected, List.flatMap_singleton]

theorem lt_two_pow_cnt (hk : k < n) : k % 2 ^ Bits.log2Up n = k :=
  Nat.mod_eq_of_lt (hk.trans_le (Bits.le_two_pow_log2Up n))

variable (hI : Inv n narrowWidth doSer (s, h))

include hI

theorem sent_eq : h.sent ++ pending n narrowWidth s = expected n narrowWidth doSer h := hI.sent

theorem inv_of_active (ha : s.active = true) :
    Inv n narrowWidth doSer (next n doSer s i, record n narrowWidth doSer s i h) := by
  have hcnt : s.cnt < n := hI.cnt ha
  have hsent := sent_eq hI
  rw [pending, if_pos ha] at hsent
  have hin : inFire n narrowWidth doSer s i = false := by simp [inFire, out, ha]
  cases hr : i.outReady with
  | false =>
    have hout : outFire n narrowWidth doSer s i = false := by simp [outFire, hr]
    have hnext : next n doSer s i = s := by simp [next, ha, hr]
    rw [hnext, record, hin, hout]
    exact hI
  | true =>
    have hout : outFire n narrowWidth doSer s i = true := by simp [outFire, out, ha, hr]
    have hbeat : beat narrowWidth (out n narrowWidth doSer s i).outBits =
        ⟨s.rbits.hdr, chunk narrowWidth s.rbits.data s.cnt⟩ := by
      simp only [out, ha, if_true]
      exact beat_shifter hcnt
    have hnext : next n doSer s i =
        { s with cnt := (s.cnt + 1) % 2 ^ Bits.log2Up n, active := !wrap n s } := by
      simp [next, ha, hr]
    rw [drop_beats hcnt] at hsent
    rw [hnext, record, hin, hout, hbeat]
    by_cases hw : s.cnt = n - 1
    · have hwrap : wrap n s = true := decide_eq_true hw
      rw [show s.cnt + 1 = n by omega, drop_beats_last] at hsent
      rw [hwrap]
      exact ⟨(List.append_nil _).trans hsent, fun h => absurd h Bool.false_ne_true⟩
    · have hlt : s.cnt + 1 < n := by omega
      have hwrap : wrap n s = false := decide_eq_false hw
      rw [hwrap, lt_two_pow_cnt hlt]
      exact ⟨(List.append_assoc ..).trans hsent, fun _ => hlt⟩

/-- An idle circuit takes a message, with its first beat or without, or does nothing. -/
theorem inv_of_idle (hn : 0 < n) (ha : s.active = false) (hc : Clear n doSer s i) :
    Inv n narrowWidth doSer (next n doSer s i, record n narrowWidth doSer s i h) := by
  have hsent := sent_eq hI
  have hidle : pending n narrowWidth s = [] := by rw [pending, ha, if_neg (by simp)]
  rw [hidle, List.append_nil] at hsent
  have hbits : (out n narrowWidth doSer s i).outBits = i.inBits := by simp [out, ha]
  cases hv : i.inValid with
  | false =>
    have hin : inFire n narrowWidth doSer s i = false := by simp [inFire, hv]
    have hout : outFire n narrowWidth doSer s i = false := by simp [outFire, out, ha, hv]
    have hnext : next n doSer s i = s := by simp [next, ha, hv]
    rw [hnext, record, hin, hout]
    exact hI
  | true =>
    have hin : inFire n narrowWidth doSer s i = true := by simp [inFire, out, ha, hv]
    have hout : outFire n narrowWidth doSer s i = i.outReady := by simp [outFire, out, hv]
    have hclear := hc ha hv
    cases hser : doSer i.inBits with
    | false =>
      rw [hser, if_neg (by simp)] at hclear
      have hnext : next n doSer s i = s := by simp [next, ha, hser]
      have hbeats : beats n narrowWidth doSer i.inBits = [beat narrowWidth i.inBits] := by
        rw [beats, hser, if_neg (by simp)]
      rw [hnext, record, hin, hout, hclear, hbits]
      refine ⟨?_, fun h => by simp [ha] at h⟩
      rw [if_pos rfl, if_pos rfl, expected_append, hbeats, ← hsent, hidle, List.append_nil]
    | true =>
      rw [hser, if_pos rfl] at hclear
      have hnext : next n doSer s i =
          { cnt := if i.outReady then 1 else 0, rbits := i.inBits, active := true } := by
        simp [next, ha, hv, hser]
      have hbeats : beats n narrowWidth doSer i.inBits =
          ((List.range n).map fun k =>
            (⟨i.inBits.hdr, chunk narrowWidth i.inBits.data k⟩ : Beat α)).drop 0 := by
        rw [beats, hser, if_pos rfl, List.drop_zero]
      rw [hnext, record, hin, hout, hbits]
      cases hr : i.outReady with
      | false =>
        refine ⟨?_, fun _ => hn⟩
        rw [if_neg (by simp), if_pos rfl, expected_append, hbeats, ← hsent]
        rfl
      | true =>
        have hn1 : 1 < n := by
          have := fun h => (hclear h).symm.trans hr
          simp only [Bool.false_eq_true, imp_false] at this
          omega
        refine ⟨?_, fun _ => hn1⟩
        rw [if_pos rfl, if_pos rfl, expected_append, hbeats, drop_beats hn, ← hsent]
        exact List.append_assoc ..

theorem inv_next (hn : 0 < n) (hc : Clear n doSer s i) :
    Inv n narrowWidth doSer (next n doSer s i, record n narrowWidth doSer s i h) := by
  cases ha : s.active with
  | false => exact inv_of_idle hI hn ha hc
  | true => exact inv_of_active hI ha

theorem whole_of_inv : Whole n narrowWidth doSer (s, h) := by
  refine ⟨⟨_, hI.sent⟩, fun ha => ?_⟩
  have hsent := sent_eq hI
  rwa [pending, show s.active = false from ha, if_neg (by simp), List.append_nil] at hsent

theorem complete_iff :
    h.sent = expected n narrowWidth doSer h ↔ s.active = false := by
  have hsent := sent_eq hI
  rw [← hsent, List.self_eq_append_right, pending]
  cases ha : s.active with
  | false => simp
  | true =>
    rw [if_pos rfl, drop_beats (hI.cnt ha)]
    simp

/-- In a state that has lost nothing `done` is right in clear cycles and in no others. -/
theorem doneRight_iff (hn : 0 < n) :
    DoneRight n narrowWidth doSer (s, h) i ↔ Clear n doSer s i := by
  have hcomplete (hc : Clear n doSer s i) :
      (record n narrowWidth doSer s i h).sent =
        expected n narrowWidth doSer (record n narrowWidth doSer s i h) ↔
          (next n doSer s i).active = false :=
    complete_iff (inv_next hI hn hc)
  cases ha : s.active with
  | true =>
    have hc : Clear n doSer s i := fun h => by simp [ha] at h
    refine iff_of_true ?_ hc
    rw [DoneRight, hcomplete hc]
    cases hr : i.outReady <;> simp [out, outFire, next, ha, hr]
  | false =>
    cases hv : i.inValid with
    | false =>
      have hc : Clear n doSer s i := fun _ h => by simp [hv] at h
      refine iff_of_true ?_ hc
      simp [DoneRight, out, outFire, ha, hv]
    | true =>
      have hout : outFire n narrowWidth doSer s i = i.outReady := by simp [outFire, out, hv]
      cases hser : doSer i.inBits with
      | false =>
        have hdone : (out n narrowWidth doSer s i).done = true := by simp [out, ha, hv, hser]
        have hclear : Clear n doSer s i ↔ i.outReady = true := by simp [Clear, ha, hv, hser]
        rw [DoneRight, hout, hdone, hclear]
        refine ⟨fun h => (h.1 rfl).1, fun hr => iff_of_true rfl ⟨hr, ?_⟩⟩
        rw [hcomplete (hclear.2 hr)]
        simp [next, ha, hser]
      | true =>
        have hdone : (out n narrowWidth doSer s i).done = false := by simp [out, ha, hser]
        have hclear : Clear n doSer s i ↔ (n = 1 → i.outReady = false) := by
          simp [Clear, ha, hv, hser]
        rw [DoneRight, hout, hdone, hclear]
        by_cases hn1 : n = 1 ∧ i.outReady = true
        · -- The one beat of the line is out, and the circuit goes on as if it were not.
          obtain ⟨rfl, hr⟩ := hn1
          have hsent : h.sent = expected 1 narrowWidth doSer h := (complete_iff hI).2 ha
          refine iff_of_false (fun h => ?_) (by simp [hr])
          refine absurd (h.2 ⟨hr, ?_⟩) Bool.false_ne_true
          have hin : inFire 1 narrowWidth doSer s i = true := by simp [inFire, out, ha, hv]
          have hbits : (out 1 narrowWidth doSer s i).outBits = i.inBits := by simp [out, ha]
          rw [record, hin, hout, hr, if_pos rfl, if_pos rfl, expected_append, ← hsent, hbits,
            beats, hser]
          rfl
        · have hc : n = 1 → i.outReady = false := fun h => by
            rw [← Bool.not_eq_true]
            exact fun hr => hn1 ⟨h, hr⟩
          refine iff_of_true ?_ hc
          refine iff_of_false Bool.false_ne_true fun h => ?_
          rw [hcomplete (hclear.2 hc)] at h
          simp [next, ha, hv, hser] at h

end Step

/-! ### Runs -/

section Run

variable {α : Type} {n narrowWidth : ℕ} {doSer : Msg α → Bool} {st : ℕ → State α × Hist α}
  {lab : ℕ → In α}

theorem inv_zero (hrun : (machine n narrowWidth doSer).Run st lab) :
    Inv n narrowWidth doSer (st 0) := by
  obtain ⟨⟨-, hactive⟩, hhist⟩ := hrun.init
  refine ⟨?_, fun h => by rw [hactive] at h; cases h⟩
  rw [hhist, pending, hactive, if_neg (by simp)]
  rfl

/-- What one clear cycle keeps, a run of clear cycles keeps. -/
theorem inv_of_clear (hn : 0 < n) (hrun : (machine n narrowWidth doSer).Run st lab) {t : ℕ}
    (hc : ∀ u < t, Clear n doSer (st u).1 (lab u)) : Inv n narrowWidth doSer (st t) := by
  induction t with
  | zero => exact inv_zero hrun
  | succ t ih =>
    have hI := ih fun u hu => hc u (Nat.lt_succ_of_lt hu)
    obtain ⟨hnext, hrecord⟩ := hrun.step t
    have hstep := inv_next (i := lab t) hI hn (hc t (Nat.lt_succ_self t))
    rwa [← hnext, ← hrecord] at hstep

/-- For every number of beats, every width, every sequence of inputs and every meaning of "has
data", the output is at all times that of the accepted messages, in order and once each, and `done`
marks their last beats, exactly when every cycle is clear. -/
theorem lossless_iff (hn : 0 < n) (hrun : (machine n narrowWidth doSer).Run st lab) :
    (∀ t, Whole n narrowWidth doSer (st t) ∧ DoneRight n narrowWidth doSer (st t) (lab t)) ↔
      ∀ t, Clear n doSer (st t).1 (lab t) := by
  constructor
  · intro h t
    induction t using Nat.strong_induction_on with
    | _ t ih => exact (doneRight_iff (inv_of_clear hn hrun ih) hn).1 (h t).2
  · intro hc t
    have hI := inv_of_clear hn hrun fun u (_ : u < t) => hc u
    exact ⟨whole_of_inv hI, (doneRight_iff hI hn).2 (hc t)⟩

theorem exists_run (n narrowWidth : ℕ) (doSer rbits) (lab : ℕ → In α) :
    ∃ st, (machine n narrowWidth doSer).Run st lab ∧ st 0 = (⟨0, rbits, false⟩, ⟨[], []⟩) :=
  Machine.exists_run ⟨rfl, rfl⟩ lab

end Run

/-! ### Two runs -/

/-- In the first cycle a message comes in, with data or without. -/
def once (hasData outReady : Bool) (t : ℕ) : In Bool :=
  ⟨decide (t = 0), ⟨hasData, 513⟩, outReady⟩

/-- A line of two beats. -/
theorem lossless_line : ∃ st, (machine 2 8 Msg.hdr).Run st (once true true) ∧
    ∀ t, Whole 2 8 Msg.hdr (st t) ∧ DoneRight 2 8 Msg.hdr (st t) (once true true t) := by
  obtain ⟨st, hrun, -⟩ := exists_run 2 8 Msg.hdr ⟨false, 0⟩ (once true true)
  exact ⟨st, hrun, (lossless_iff (by decide) hrun).2 fun _ _ _ h => absurd h (by decide)⟩

/-- A message without data that meets a consumer that is not ready is gone. -/
theorem message_lost : ∃ st, (machine 2 8 Msg.hdr).Run st (once false false) ∧
    ¬Whole 2 8 Msg.hdr (st 1) ∧ ¬DoneRight 2 8 Msg.hdr (st 0) (once false false 0) := by
  obtain ⟨st, hrun, h0⟩ := exists_run 2 8 Msg.hdr ⟨false, 0⟩ (once false false)
  obtain ⟨hnext, hrecord⟩ := hrun.step 0
  rw [h0] at hnext hrecord
  have h1 : st 1 = (⟨0, ⟨false, 0⟩, false⟩, ⟨[⟨false, 513⟩], []⟩) := Prod.ext hnext hrecord
  refine ⟨st, hrun, ?_, ?_⟩
  · rw [h1]
    exact fun h => absurd (h.2 rfl) (by decide)
  · rw [h0]
    exact fun h => absurd (h.1 rfl).1 (by decide)

end Serializer

end RiscvSoc
