import RiscvSoc.Lib.Encoder
import RiscvSoc.Lib.Queue

/-!
# The slow host link

`SlowIO` from `uncore/src/main/scala/slowio.scala` lets a host on a divided clock talk to the chip.
A counter runs from zero to `divisor`; halfway the slow clock rises, at the end it falls. Both
directions go through a queue of one entry, and both are passed on at the rising point only. What
the slow side sees of them, an item and whether there is room, are registers which are loaded at the
hold point, `hold` cycles after the rising point.

## The settings

The host writes `divisor` and `hold`, and the link takes them over when the slow clock falls.
Nothing in the circuit looks at what they are, and not all of them work. With `hold` zero the
registers are loaded in the very cycle in which their item is taken, so the item is shown once more;
with `hold` too large they are not loaded at all; with `divisor` zero the slow clock stops while the
circuit goes on to take every cycle for a rising edge.

What the settings have to ensure is said by `SlowIo.Paced`. It is about the cycles of a run rather
than about the settings themselves, since two settings that follow one another share a period, and a
sum of `divisor` and `hold` that wraps around puts the hold point before the rising point, which
does no harm. `SlowIo.Setting` is a sufficient condition on the settings.
-/

namespace RiscvSoc

variable {α : Type} {w : ℕ}

/-- The registers, for `divisor_max = 2 ^ w`. -/
structure SlowIo (α : Type) (w : ℕ) where
  divisor : BitVec w
  dShadow : BitVec w
  hold : BitVec w
  hShadow : BitVec w
  count : BitVec w
  myclock : Bool
  inSlowRdy : Bool
  outSlowVal : Bool
  outSlowBits : α
  fromhostQ : Queue α 1
  tohostQ : Queue α 1

/-- The inputs of one cycle of the fast clock. -/
structure SlowIoIn (α : Type) where
  outFast : Option α
  inFastReady : Bool
  outSlowReady : Bool
  inSlow : Option α
  setDivisor : Option (BitVec 32)

namespace SlowIo

variable (s : SlowIo α w) (i : SlowIoIn α)

def rising : Bool := s.count == s.divisor >>> 1

def falling : Bool := s.count == s.divisor

def held : Bool := s.count == (s.divisor >>> 1) + s.hold

/-- `fromhost_q` is filled at the rising point. -/
def fromhostIn : QueueInput α := ⟨if s.rising && s.inSlowRdy then i.inSlow else none, i.inFastReady⟩

/-- `tohost_q` is emptied at the rising point. -/
def tohostIn : QueueInput α := ⟨i.outFast, s.rising && i.outSlowReady && s.outSlowVal⟩

def next : SlowIo α w where
  divisor := if s.falling then s.dShadow else s.divisor
  dShadow := (i.setDivisor.map fun (b : BitVec 32) => b.setWidth w).getD s.dShadow
  hold := if s.falling then s.hShadow else s.hold
  hShadow := (i.setDivisor.map fun (b : BitVec 32) => (b >>> 16).setWidth w).getD s.hShadow
  count := if s.falling then 0 else s.count + 1
  myclock := if s.rising then true else if s.falling then false else s.myclock
  inSlowRdy := if s.held then s.fromhostQ.enqReady false (s.fromhostIn i) else s.inSlowRdy
  outSlowVal := if s.held then (s.tohostQ.deq false (s.tohostIn i)).isSome else s.outSlowVal
  outSlowBits := if s.held then s.tohostQ.ram s.tohostQ.ptrs.deq else s.outSlowBits
  fromhostQ := s.fromhostQ.next false false (s.fromhostIn i)
  tohostQ := s.tohostQ.next false false (s.tohostIn i)

/-- Reset. The counter and the clock are not reset. -/
structure IsReset : Prop where
  divisor : s.divisor = BitVec.ofNat w (2 ^ w - 1)
  dShadow : s.dShadow = BitVec.ofNat w (2 ^ w - 1)
  hold : s.hold = BitVec.ofNat w (2 ^ w / 4 - 1)
  hShadow : s.hShadow = BitVec.ofNat w (2 ^ w / 4 - 1)
  inSlowRdy : s.inSlowRdy = false
  outSlowVal : s.outSlowVal = false
  fromhostQ : s.fromhostQ.IsReset
  tohostQ : s.tohostQ.IsReset

/-- `io.clk_slow` rises at the end of this cycle, and the slow side samples its ports. -/
def clkRises : Bool := !s.myclock && (s.next i).myclock

/-- What the slow side takes. -/
def outTaken : List α :=
  if s.clkRises i && s.outSlowVal && i.outSlowReady then [s.outSlowBits] else []

/-- What the slow side gives. -/
def inGiven : List α := if s.clkRises i && s.inSlowRdy then i.inSlow.toList else []

end SlowIo

/-- What went through each of the four ports. -/
structure SlowLog (α : Type) where
  /-- From the fast side to the slow side. -/
  out : FifoLog α
  /-- From the slow side to the fast side. -/
  inn : FifoLog α
  /-- No rising point has come since the last hold point, or since reset. -/
  fresh : Bool

namespace SlowIo

variable (s : SlowIo α w) (i : SlowIoIn α)

/-- The log goes on. -/
def note (g : SlowLog α) : SlowLog α where
  out := g.out.note (s.tohostQ.entered false (s.tohostIn i)) (s.outTaken i)
  inn := g.inn.note (s.inGiven i) (s.fromhostQ.left false (s.fromhostIn i))
  fresh := if s.rising then false else if s.held then true else g.fresh

def machine (α : Type) (w : ℕ) : Machine (SlowIo α w × SlowLog α) (SlowIoIn α) :=
  (Machine.clocked IsReset next).observe ⟨⟨[], []⟩, ⟨[], []⟩, true⟩ note

/-- A rising point at which an item or room is shown is a rising edge of the slow clock, and a hold
point has come since the one before. -/
def Paced (x : SlowIo α w × SlowLog α) (_ : SlowIoIn α) : Prop :=
  x.1.rising = true → x.1.outSlowVal = true ∨ x.1.inSlowRdy = true →
    x.1.myclock = false ∧ x.2.fresh = true

/-! ### One cycle -/

variable {s i} {g : SlowLog α}

theorem clkRises_eq : s.clkRises i = (!s.myclock && s.rising) := by
  rw [clkRises, next]
  cases s.myclock <;> cases s.rising <;> cases s.falling <;> rfl

theorem tohostQ_step : FifoStep s.tohostQ.held (s.tohostQ.entered false (s.tohostIn i))
    (s.tohostQ.left false (s.tohostIn i)) (s.next i).tohostQ.held := Queue.step

theorem fromhostQ_step : FifoStep s.fromhostQ.held (s.fromhostQ.entered false (s.fromhostIn i))
    (s.fromhostQ.left false (s.fromhostIn i)) (s.next i).fromhostQ.held := Queue.step

/-- What the registers show is there, unless a rising point has come since they were loaded. -/
structure Shows (s : SlowIo α w) (g : SlowLog α) : Prop where
  item : g.fresh = true → s.outSlowVal = true → s.tohostQ.held.head? = some s.outSlowBits
  room : g.fresh = true → s.inSlowRdy = true → s.fromhostQ.held = []

theorem tohostQ_deq : s.tohostQ.deq false (s.tohostIn i) = s.tohostQ.held.head? := by
  have h : s.tohostQ.deq false (s.tohostIn i) = (s.tohostQ.held ++ []).head? := Queue.deq_eq_head
  rw [h, List.append_nil]

theorem tohostQ_bits (h : s.tohostQ.held ≠ []) :
    s.tohostQ.held.head? = some (s.tohostQ.ram s.tohostQ.ptrs.deq) := by
  cases hempty : s.tohostQ.ptrs.empty with
  | true => exact absurd (RingPtrs.held_eq_nil hempty) h
  | false =>
    obtain ⟨l, hl⟩ := RingPtrs.held_eq_cons s.tohostQ.ram hempty
    rw [Queue.held, hl]
    rfl

theorem fromhostQ_ready :
    s.fromhostQ.enqReady false (s.fromhostIn i) = decide (s.fromhostQ.held = []) := by
  rw [Queue.enqReady_eq, Bool.false_and, Bool.or_false]
  exact decide_eq_decide.mpr (by rw [Nat.lt_one_iff, List.length_eq_zero_iff])

/-- Without a rising point nothing leaves the one queue and nothing enters the other. -/
theorem keeps_of_not_rising (h : s.rising = false) :
    (∀ x, s.tohostQ.held.head? = some x → (s.next i).tohostQ.held.head? = some x) ∧
      (s.fromhostQ.held = [] → (s.next i).fromhostQ.held = []) := by
  constructor
  · intro x hx
    have hstep := tohostQ_step (s := s) (i := i)
    have hleft : s.tohostQ.left false (s.tohostIn i) = [] := by rw [Queue.left, tohostIn, h]; rfl
    rw [FifoStep, hleft, List.nil_append] at hstep
    rw [← hstep, List.head?_append, hx]
    rfl
  · intro hnil
    have hstep := fromhostQ_step (s := s) (i := i)
    have henter : s.fromhostQ.entered false (s.fromhostIn i) = [] := by
      rw [Queue.entered, fromhostIn, h]
      exact ite_self _
    rw [FifoStep, hnil, henter, List.append_nil] at hstep
    exact (List.append_eq_nil_iff.mp hstep.symm).2

theorem next_of_held (h : s.held = true) :
    (s.next i).outSlowVal = s.tohostQ.held.head?.isSome ∧
      (s.next i).outSlowBits = s.tohostQ.ram s.tohostQ.ptrs.deq ∧
      (s.next i).inSlowRdy = decide (s.fromhostQ.held = []) := by
  simp [next, h, tohostQ_deq, fromhostQ_ready]

theorem next_of_not_held (h : s.held = false) :
    (s.next i).outSlowVal = s.outSlowVal ∧ (s.next i).outSlowBits = s.outSlowBits ∧
      (s.next i).inSlowRdy = s.inSlowRdy := by
  simp [next, h]

theorem Shows.next (h : Shows s g) : Shows (s.next i) (note s i g) := by
  cases hr : s.rising with
  | true =>
    have hfresh : ¬ (note s i g).fresh = true := by simp [note, hr]
    exact ⟨fun hf => absurd hf hfresh, fun hf => absurd hf hfresh⟩
  | false =>
    obtain ⟨hitem, hroom⟩ := keeps_of_not_rising (i := i) hr
    cases hh : s.held with
    | true =>
      obtain ⟨hval, hbits, hrdy⟩ := next_of_held (i := i) hh
      refine ⟨fun _ hsome => ?_, fun _ hsome => hroom (of_decide_eq_true (hrdy ▸ hsome))⟩
      rw [hbits]
      refine hitem _ (tohostQ_bits fun hnil => ?_)
      rw [hval, hnil] at hsome
      cases hsome
    | false =>
      obtain ⟨hval, hbits, hrdy⟩ := next_of_not_held (i := i) hh
      have hfresh : (note s i g).fresh = g.fresh := by simp [note, hr, hh]
      refine ⟨fun hf hsome => ?_, fun hf hsome => ?_⟩
      · rw [hbits]
        exact hitem _ (h.item (hfresh ▸ hf) (hval ▸ hsome))
      · exact hroom (h.room (hfresh ▸ hf) (hrdy ▸ hsome))

/-- What leaves `tohost_q` is what the slow side takes. -/
theorem outTaken_eq (h : Shows s g) (hp : Paced (s, g) i) :
    s.outTaken i = s.tohostQ.left false (s.tohostIn i) := by
  have hleft : s.tohostQ.left false (s.tohostIn i) =
      if s.rising && i.outSlowReady && s.outSlowVal then s.tohostQ.held.head?.toList else [] := by
    rw [Queue.left, tohostQ_deq, tohostIn]
  rw [outTaken, clkRises_eq, hleft]
  cases hr : s.rising with
  | false => simp
  | true =>
    cases hv : s.outSlowVal with
    | false => simp
    | true =>
      obtain ⟨hclk, hfresh⟩ := hp hr (.inl hv)
      have hclk' : s.myclock = false := hclk
      rw [h.item hfresh hv, hclk']
      simp

/-- What enters `fromhost_q` is what the slow side gives. -/
theorem inGiven_eq (h : Shows s g) (hp : Paced (s, g) i) :
    s.inGiven i = s.fromhostQ.entered false (s.fromhostIn i) := by
  have henter : s.fromhostQ.entered false (s.fromhostIn i) = if decide (s.fromhostQ.held = []) then
      (if s.rising && s.inSlowRdy then i.inSlow else none).toList else [] := by
    rw [Queue.entered, fromhostQ_ready, fromhostIn]
  rw [inGiven, clkRises_eq, henter]
  cases hr : s.rising with
  | false => simp
  | true =>
    cases hv : s.inSlowRdy with
    | false => simp
    | true =>
      obtain ⟨hclk, hfresh⟩ := hp hr (.inr hv)
      have hclk' : s.myclock = false := hclk
      rw [h.room hfresh hv, hclk']
      simp

/-! ### Whole runs -/

/-- Nothing is lost, duplicated or reordered on either side. -/
structure Conserves (s : SlowIo α w) (g : SlowLog α) : Prop where
  out : g.out.Conserves s.tohostQ.held
  inn : g.inn.Conserves s.fromhostQ.held

theorem IsReset.shows (h : s.IsReset) : Shows s g where
  item _ hv := by simp [h.outSlowVal] at hv
  room _ hv := by simp [h.inSlowRdy] at hv

theorem IsReset.conserves (h : s.IsReset) : Conserves s ⟨⟨[], []⟩, ⟨[], []⟩, true⟩ where
  out := h.tohostQ.held.symm
  inn := h.fromhostQ.held.symm

theorem Conserves.next (h : Conserves s g) (hs : Shows s g) (hp : Paced (s, g) i) :
    Conserves (s.next i) (note s i g) where
  out := h.out.note (outTaken_eq hs hp ▸ tohostQ_step)
  inn := h.inn.note (inGiven_eq hs hp ▸ fromhostQ_step)

theorem reachable_conserves {x : SlowIo α w × SlowLog α}
    (h : ((machine α w).restrict Paced).Reachable x) : Shows x.1 x.2 ∧ Conserves x.1 x.2 := by
  refine Machine.invariant (I := fun x => Shows x.1 x.2 ∧ Conserves x.1 x.2) ?_ ?_ x h
  · rintro ⟨s, g⟩ ⟨hs, rfl⟩
    exact ⟨hs.shows, hs.conserves⟩
  · rintro ⟨s, g⟩ i ⟨s', g'⟩ - ⟨hs, hc⟩ ⟨hp, rfl, rfl⟩
    exact ⟨hs.next, hc.next hs hp⟩

/-! ### Nothing stays -/

/-- Runs of the link with their history. -/
abbrev PacedRun (st : ℕ → SlowIo α w × SlowLog α) (lab : ℕ → SlowIoIn α) : Prop :=
  ((machine α w).restrict Paced).Run st lab

variable {st : ℕ → SlowIo α w × SlowLog α} {lab : ℕ → SlowIoIn α}

theorem PacedRun.step (h : PacedRun st lab) (t : ℕ) : Paced (st t) (lab t) ∧
    (st (t + 1)).1 = (st t).1.next (lab t) ∧
    (st (t + 1)).2 = (st t).1.note (lab t) (st t).2 := by
  obtain ⟨hp, hnext, hnote⟩ := Machine.Run.step h t
  exact ⟨hp, hnext, hnote⟩

theorem PacedRun.inv (h : PacedRun st lab) (t : ℕ) :
    Shows (st t).1 (st t).2 ∧ Conserves (st t).1 (st t).2 :=
  reachable_conserves (Machine.Run.reachable h t)

/-- An item that waits in `tohost_q` is taken, if hold points and rising points at which the slow
side is ready keep coming. -/
theorem PacedRun.out_moves (h : PacedRun st lab) (hhold : ∀ t, ∃ u ≥ t, (st u).1.held = true)
    (hready : ∀ t, ∃ u ≥ t, (st u).1.rising = true ∧ (lab u).outSlowReady = true) {t : ℕ}
    (ht : (st t).1.tohostQ.held ≠ []) : ∃ u ≥ t, (st u).1.outTaken (lab u) ≠ [] := by
  by_contra hno
  push Not at hno
  have hstay : ∀ u ≥ t, (st u).1.tohostQ.held ≠ [] := by
    intro u hu
    induction u, hu using Nat.le_induction with
    | base => exact ht
    | succ u hu ih =>
      obtain ⟨hp, hnext, -⟩ := h.step u
      have hstep := tohostQ_step (s := (st u).1) (i := lab u)
      rw [← outTaken_eq (h.inv u).1 hp, hno u hu, FifoStep, List.nil_append] at hstep
      rw [hnext, ← hstep]
      exact List.append_ne_nil_of_left_ne_nil ih _
  have hload : ∀ u ≥ t, (st u).1.held = true → (st (u + 1)).1.outSlowVal = true := by
    intro u hu hh
    rw [(h.step u).2.1, (next_of_held hh).1, List.isSome_head?]
    simpa using hstay u hu
  obtain ⟨v, hv, hh⟩ := hhold t
  have hshown : ∀ u ≥ v + 1, (st u).1.outSlowVal = true := by
    intro u hu
    induction u, hu using Nat.le_induction with
    | base => exact hload v hv hh
    | succ u hu ih =>
      cases hu' : (st u).1.held with
      | true => exact hload u (by omega) hu'
      | false => rw [(h.step u).2.1, (next_of_not_held hu').1, ih]
  obtain ⟨u, hu, hr, hrdy⟩ := hready (v + 1)
  have hclk := ((h.step u).1 hr (.inl (hshown u hu))).1
  have htaken := hno u (by omega)
  rw [outTaken, clkRises_eq, hclk, hr, hshown u hu, hrdy] at htaken
  cases htaken

/-- An item that waits in `fromhost_q` is taken, if the fast side is ready again. -/
theorem PacedRun.inn_moves (h : PacedRun st lab) (hready : ∀ t, ∃ u ≥ t, (lab u).inFastReady = true)
    {t : ℕ} (ht : (st t).1.fromhostQ.held ≠ []) :
    ∃ u ≥ t, (st u).1.fromhostQ.left false ((st u).1.fromhostIn (lab u)) ≠ [] := by
  have hstay : ∀ u, (st u).1.fromhostQ.held ≠ [] → ¬ (lab u).inFastReady = true →
      (st (u + 1)).1.fromhostQ.held ≠ [] := by
    intro u hu hn
    have hstep := fromhostQ_step (s := (st u).1) (i := lab u)
    have hleft : (st u).1.fromhostQ.left false ((st u).1.fromhostIn (lab u)) = [] := by
      rw [Queue.left, fromhostIn, if_neg hn]
    rw [hleft, FifoStep, List.nil_append] at hstep
    rw [(h.step u).2.1, ← hstep]
    exact List.append_ne_nil_of_left_ne_nil hu _
  obtain ⟨u, hu, hheld, hrdy⟩ := Machine.exists_of_stays ht hstay (hready t)
  refine ⟨u, hu, ?_⟩
  have hdeq : (st u).1.fromhostQ.deq false ((st u).1.fromhostIn (lab u)) =
      ((st u).1.fromhostQ.held ++ []).head? := Queue.deq_eq_head
  rw [Queue.left, fromhostIn, if_pos hrdy, ← fromhostIn, hdeq, List.append_nil]
  obtain ⟨x, l, hl⟩ := List.exists_cons_of_ne_nil hheld
  simp [hl]

/-- **The link is a pair of queues of one entry**, in runs in which a hold point comes before each
rising point at which something is shown. In every reachable state what one side gave is what the
other side took, in order, followed by at most one item. In every infinite run in which hold points
keep coming, a side that is ready again and again gets everything. -/
theorem delivers_both_ways (α : Type) (w : ℕ) :
    (∀ x, ((machine α w).restrict Paced).Reachable x →
      (∃ flight, x.2.out.entered = x.2.out.left ++ flight ∧ flight.length ≤ 1) ∧
      ∃ flight, x.2.inn.entered = x.2.inn.left ++ flight ∧ flight.length ≤ 1) ∧
    ∀ st lab, ((machine α w).restrict Paced).Run st lab →
      (∀ t, ∃ u ≥ t, (st u).1.held = true) →
      ((∀ t, ∃ u ≥ t, (st u).1.rising = true ∧ (lab u).outSlowReady = true) →
        ∀ t, ∃ u ≥ t, (st t).2.out.entered <+: (st u).2.out.left) ∧
      ((∀ t, ∃ u ≥ t, (lab u).inFastReady = true) →
        ∀ t, ∃ u ≥ t, (st t).2.inn.entered <+: (st u).2.inn.left) := by
  refine ⟨fun x hx => ?_, fun st lab h hhold => ⟨fun hready => ?_, fun hready => ?_⟩⟩
  · obtain ⟨-, hc⟩ := reachable_conserves hx
    exact ⟨⟨_, hc.out, Queue.length_held_le⟩, ⟨_, hc.inn, Queue.length_held_le⟩⟩
  · have hnote : ∀ t, (st (t + 1)).2.out = _ := fun t =>
        congrArg SlowLog.out (PacedRun.step h t).2.2
    refine FifoLog.delivers (fun t => (st t).2.out) (fun t => (st t).1.tohostQ.held)
      (fun t => ⟨_, _, hnote t⟩) (fun t => (PacedRun.inv h t).2.out) fun t ht => ?_
    obtain ⟨u, hu, htaken⟩ := PacedRun.out_moves h hhold hready ht
    exact ⟨u + 1, by omega, FifoLog.length_left_lt (fun t => (st t).2.out)
      (fun t => ⟨_, _, hnote t⟩) hu (hnote u) htaken⟩
  · have hnote : ∀ t, (st (t + 1)).2.inn = _ := fun t =>
        congrArg SlowLog.inn (PacedRun.step h t).2.2
    refine FifoLog.delivers (fun t => (st t).2.inn) (fun t => (st t).1.fromhostQ.held)
      (fun t => ⟨_, _, hnote t⟩) (fun t => (PacedRun.inv h t).2.inn) fun t ht => ?_
    obtain ⟨u, hu, htaken⟩ := PacedRun.inn_moves h hready ht
    exact ⟨u + 1, by omega, FifoLog.length_left_lt (fun t => (st t).2.inn)
      (fun t => ⟨_, _, hnote t⟩) hu (hnote u) htaken⟩

/-! ### Settings that work -/

/-- The hold point comes after the rising point, and no later than the falling point. -/
def Setting (divisor hold : BitVec w) : Prop :=
  0 < hold.toNat ∧ divisor.toNat / 2 + hold.toNat ≤ divisor.toNat

/-- The host writes such settings only. -/
def WritesSetting (_ : SlowIo α w × SlowLog α) (i : SlowIoIn α) : Prop :=
  ∀ bits ∈ i.setDivisor, Setting (bits.setWidth w) ((bits >>> 16).setWidth w)

/-- Where the counter stands in its period, with what the log says about it. -/
structure Phase (s : SlowIo α w) (g : SlowLog α) : Prop where
  now : Setting s.divisor s.hold
  later : Setting s.dShadow s.hShadow
  count_le : s.count.toNat ≤ s.divisor.toNat
  low : s.count.toNat ≤ s.divisor.toNat / 2 →
    s.myclock = false ∧ g.fresh = true ∨ s.outSlowVal = false ∧ s.inSlowRdy = false
  loaded : s.divisor.toNat / 2 + s.hold.toNat < s.count.toNat → g.fresh = true

theorem rising_iff : s.rising = true ↔ s.count.toNat = s.divisor.toNat / 2 := by
  rw [rising, beq_iff_eq, ← BitVec.toNat_inj, BitVec.toNat_ushiftRight, Nat.shiftRight_one]

theorem falling_iff : s.falling = true ↔ s.count.toNat = s.divisor.toNat := by
  rw [falling, beq_iff_eq, ← BitVec.toNat_inj]

theorem held_iff (h : Setting s.divisor s.hold) :
    s.held = true ↔ s.count.toNat = s.divisor.toNat / 2 + s.hold.toNat := by
  rw [held, beq_iff_eq, ← BitVec.toNat_inj, BitVec.toNat_add, BitVec.toNat_ushiftRight,
    Nat.shiftRight_one, Nat.mod_eq_of_lt (h.2.trans_lt s.divisor.isLt)]

theorem Phase.paced (h : Phase s g) : Paced (s, g) i := by
  intro hr hshown
  refine (h.low (rising_iff.mp hr).le).resolve_right ?_
  rintro ⟨hv, hrdy⟩
  rcases hshown with hs | hs
  · rw [show s.outSlowVal = true from hs] at hv
    cases hv
  · rw [show s.inSlowRdy = true from hs] at hrdy
    cases hrdy

/-- Within a period the counter counts, and the settings stay. -/
theorem Phase.next_of_not_falling (h : Phase s g) (hf : s.count.toNat ≠ s.divisor.toNat) :
    (s.next i).count.toNat = s.count.toNat + 1 ∧ (s.next i).divisor = s.divisor ∧
      (s.next i).hold = s.hold := by
  have hf' : s.falling = false := by rw [Bool.eq_false_iff, Ne, falling_iff]; exact hf
  have hlt := s.divisor.isLt
  have hle := h.count_le
  have heq : (s.next i).count = s.count + 1 := by simp [SlowIo.next, hf']
  refine ⟨?_, by simp [SlowIo.next, hf'], by simp [SlowIo.next, hf']⟩
  rw [heq, BitVec.toNat_add, show (1 : BitVec w).toNat = 1 % 2 ^ w from rfl, Nat.add_mod_mod,
    Nat.mod_eq_of_lt]
  omega

theorem Phase.next (h : Phase s g) (hi : WritesSetting (s, g) i) :
    Phase (s.next i) (note s i g) := by
  have hnow := h.now
  have hlater : Setting (s.next i).dShadow (s.next i).hShadow := by
    cases hset : i.setDivisor with
    | none => simpa [SlowIo.next, hset] using h.later
    | some bits => simpa [SlowIo.next, hset] using hi bits hset
  have hle := h.count_le
  obtain ⟨hpos, hsum⟩ := hnow
  by_cases hf : s.count.toNat = s.divisor.toNat
  · -- a new period: the settings are taken over, and the hold point is over
    have hf' := falling_iff.mpr hf
    have hr : s.rising = false := by
      rw [Bool.eq_false_iff, Ne, rising_iff]
      omega
    have hfresh : (note s i g).fresh = true := by
      rcases hsum.lt_or_eq with hlt | heq
      · simp [note, hr, h.loaded (by omega)]
      · simp [note, hr, (held_iff h.now).mpr (by omega)]
    refine ⟨?_, hlater, ?_, fun _ => .inl ⟨?_, hfresh⟩, fun _ => hfresh⟩
    · simpa [SlowIo.next, hf'] using h.later
    · simp [SlowIo.next, hf']
    · simp [SlowIo.next, hf', hr]
  · have hf' : s.falling = false := by rw [Bool.eq_false_iff, Ne, falling_iff]; exact hf
    obtain ⟨hcount, hdiv, hhold⟩ := h.next_of_not_falling (i := i) hf
    refine ⟨by rw [hdiv, hhold]; exact h.now, hlater, ?_, ?_, ?_⟩
    · rw [hcount, hdiv]
      omega
    · rw [hcount, hdiv]
      intro hlow
      have hr : s.rising = false := by
        rw [Bool.eq_false_iff, Ne, rising_iff]
        omega
      have hh : s.held = false := by
        rw [Bool.eq_false_iff, Ne, held_iff h.now]
        omega
      obtain ⟨hval, -, hrdy⟩ := next_of_not_held (i := i) hh
      rw [hval, hrdy]
      simpa [SlowIo.next, note, hr, hh, hf'] using h.low (by omega)
    · rw [hcount, hdiv, hhold]
      intro hloaded
      have hr : s.rising = false := by
        rw [Bool.eq_false_iff, Ne, rising_iff]
        omega
      rcases Nat.lt_or_ge (s.divisor.toNat / 2 + s.hold.toNat) s.count.toNat with hlt | hge
      · simp [note, hr, h.loaded hlt]
      · simp [note, hr, (held_iff h.now).mpr (by omega)]

theorem IsReset.phase (hw : 3 ≤ w) (h : s.IsReset) : Phase s ⟨⟨[], []⟩, ⟨[], []⟩, true⟩ := by
  obtain ⟨k, rfl⟩ := Nat.exists_eq_add_of_le' hw
  have hk := Nat.two_pow_pos k
  have hpow : 2 ^ (k + 3) = 8 * 2 ^ k := by rw [Nat.pow_add, Nat.mul_comm]
  have hdiv : s.divisor.toNat = 8 * 2 ^ k - 1 := by
    rw [h.divisor, BitVec.toNat_ofNat, hpow, Nat.mod_eq_of_lt (by omega)]
  have hhold : s.hold.toNat = 2 * 2 ^ k - 1 := by
    rw [h.hold, BitVec.toNat_ofNat, hpow, Nat.mod_eq_of_lt (by omega)]
    omega
  have hset : Setting s.divisor s.hold := by
    rw [Setting, hdiv, hhold]
    omega
  have hlt := s.count.isLt
  refine ⟨hset, ?_, ?_, fun _ => .inr ⟨h.outSlowVal, h.inSlowRdy⟩, fun _ => rfl⟩
  · rw [h.dShadow, h.hShadow, ← h.divisor, ← h.hold]
    exact hset
  · rw [hdiv]
    omega

variable {x : SlowIo α w × SlowLog α}

theorem reachable_phase (hw : 3 ≤ w)
    (h : ((machine α w).restrict WritesSetting).Reachable x) : Phase x.1 x.2 := by
  refine Machine.invariant (I := fun x => Phase x.1 x.2) ?_ ?_ x h
  · rintro ⟨s, g⟩ ⟨hs, rfl⟩
    exact hs.phase hw
  · rintro ⟨s, g⟩ i ⟨s', g'⟩ - hph ⟨hok, rfl, rfl⟩
    exact hph.next hok

/-- **Settings that work.** If each setting puts the hold point after the rising point, and no later
than the falling point, every run is one that `delivers_both_ways` is about. -/
theorem reachable_paced (hw : 3 ≤ w) (h : ((machine α w).restrict WritesSetting).Reachable x) :
    ((machine α w).restrict Paced).Reachable x := by
  induction h with
  | init h => exact .init h
  | step hr h ih => exact .step ih ⟨(reachable_phase hw hr).paced, h.2⟩

theorem exists_held (hw : 3 ≤ w) {st : ℕ → SlowIo α w × SlowLog α} {lab : ℕ → SlowIoIn α}
    (h : ((machine α w).restrict WritesSetting).Run st lab) (t : ℕ) :
    ∃ u ≥ t, (st u).1.held = true := by
  have hph : ∀ t, Phase (st t).1 (st t).2 := fun t => reachable_phase hw (h.reachable t)
  have hnext : ∀ t, (st (t + 1)).1 = (st t).1.next (lab t) := fun t => (h.step t).2.1
  -- `k` cycles later in the same period
  have hcount : ∀ k t, (st t).1.count.toNat + k ≤ (st t).1.divisor.toNat →
      (st (t + k)).1.count.toNat = (st t).1.count.toNat + k ∧
        (st (t + k)).1.divisor = (st t).1.divisor ∧ (st (t + k)).1.hold = (st t).1.hold := by
    intro k t
    induction k with
    | zero => exact fun _ => ⟨rfl, rfl, rfl⟩
    | succ k ih =>
      intro hk
      obtain ⟨hc, hd, hh⟩ := ih (by omega)
      obtain ⟨hc', hd', hh'⟩ := (hph (t + k)).next_of_not_falling (i := lab (t + k))
        (by rw [hc, hd]; omega)
      rw [← Nat.add_assoc, hnext, hc', hd', hh', hc, hd, hh]
      exact ⟨by omega, rfl, rfl⟩
  -- the counter reaches its end and starts again
  have hle := (hph t).count_le
  obtain ⟨hc, hd, -⟩ := hcount ((st t).1.divisor.toNat - (st t).1.count.toNat) t (by omega)
  generalize hv : t + ((st t).1.divisor.toNat - (st t).1.count.toNat) = v at hc hd
  have hf : (st v).1.falling = true := by
    rw [falling_iff, hc, hd]
    omega
  have hzero : (st (v + 1)).1.count.toNat = 0 := by simp [hnext, SlowIo.next, hf]
  -- and comes to the hold point
  have hset := (hph (v + 1)).now
  obtain ⟨hc', hd', hh'⟩ := hcount
    ((st (v + 1)).1.divisor.toNat / 2 + (st (v + 1)).1.hold.toNat) (v + 1)
    (by rw [hzero, Nat.zero_add]; exact hset.2)
  have hhold := (held_iff (hph _).now).mpr (by rw [hc', hd', hh', hzero, Nat.zero_add])
  exact ⟨_, by omega, hhold⟩

/-! ### A setting that does not work -/

/-- Reset with `divisor_max` 8, two cycles before the end of a period. -/
def start : SlowIo ℕ 3 where
  divisor := 7
  dShadow := 7
  hold := 1
  hShadow := 1
  count := 6
  myclock := true
  inSlowRdy := false
  outSlowVal := false
  outSlowBits := 0
  fromhostQ := ⟨⟨0, 0, false⟩, fun _ => 0⟩
  tohostQ := ⟨⟨0, 0, false⟩, fun _ => 0⟩

/-- A cycle in which only the slow side is ready. -/
def quiet : SlowIoIn ℕ := ⟨none, false, true, none, none⟩

/-- The host writes `divisor` 7 and `hold` 0 while the chip sends one item; then nothing happens for
almost three periods. -/
def holdZero : List (SlowIoIn ℕ) :=
  { quiet with outFast := some 5, setDivisor := some 7 } :: List.replicate 21 quiet

/-- With `hold` zero the slow side gets the item twice. -/
theorem not_delivers_both_ways : ¬ ∀ x, (machine ℕ 3).Reachable x →
    ∃ flight, x.2.out.entered = x.2.out.left ++ flight ∧ flight.length ≤ 1 := by
  intro h
  have hstart : (machine ℕ 3).Reachable (start, ⟨⟨[], []⟩, ⟨[], []⟩, true⟩) :=
    .init ⟨⟨rfl, rfl, rfl, rfl, rfl, rfl, rfl, rfl⟩, rfl⟩
  obtain ⟨flight, heq, -⟩ := h _ (Machine.reachable_cycles hstart holdZero)
  have hlen := congrArg List.length heq
  have hin : (Machine.cycles next note holdZero
      (start, ⟨⟨[], []⟩, ⟨[], []⟩, true⟩)).2.out.entered.length = 1 := by decide
  have hout : (Machine.cycles next note holdZero
      (start, ⟨⟨[], []⟩, ⟨[], []⟩, true⟩)).2.out.left.length = 2 := by decide
  rw [List.length_append, hin, hout] at hlen
  omega

end SlowIo

end RiscvSoc
