import RiscvSoc.Lib.Encoder
import RiscvSoc.Rocket.PTW

/-!
# The translation lookaside buffer

`RocketCAM`, `PseudoLRU` and `TLB` from `rocket/src/main/scala/tlb.scala`, one clock cycle at a
time. The buffer has one refill at a time. A walk that has begun cannot be taken back, so when an
invalidation comes the buffer waits for the answer and drops it.

The walker is the environment. All that is asked of it is that it answers only walks it has
accepted, each once, which is what `PTW.ptw_eq_walk` says.

The index of the entry to refill is a number, not a `Fin`: unless the number of entries is a power
of two, `PseudoLRU` may choose an entry that does not exist, and then nothing is written.

## What is left out

`io.ptw.sret`, which the buffer does not look at.
-/

namespace RiscvSoc

open Bits

variable {n : ℕ}

/-! ### Registers of `n` bits -/

/-- `bitSet`, which has no effect on a bit that does not exist. -/
def bitSet (a : Fin n → Bool) (off : ℕ) (dat : Bool) : Fin n → Bool :=
  fun i => if (i : ℕ) = off then dat else a i

/-- A bit, zero if it does not exist. -/
def bitAt (a : Fin n → Bool) (off : ℕ) : Bool := if h : off < n then a ⟨off, h⟩ else false

variable {a : Fin n → Bool} {off : ℕ} {dat : Bool} {i : Fin n}

theorem bitSet_self (h : (i : ℕ) = off) :
    bitSet a off dat i = dat := if_pos h

theorem bitSet_of_ne (h : (i : ℕ) ≠ off) :
    bitSet a off dat i = a i := if_neg h

/-! ### `RocketCAM` -/

structure RocketCAM (n : ℕ) where
  vbArray : Fin n → Bool
  camTags : Fin n → ℕ

structure CAMInput where
  clear : Bool
  clearHit : Bool
  tag : ℕ
  write : Bool
  writeTag : ℕ
  writeAddr : ℕ

namespace RocketCAM

def hits (s : RocketCAM n) (tag : ℕ) (i : Fin n) : Bool := s.vbArray i && (s.camTags i == tag)

def hit (s : RocketCAM n) (tag : ℕ) : Bool := orR (s.hits tag)

/-- One cycle. A later assignment wins: `clear` over `clear_hit` over `write`. -/
def next (s : RocketCAM n) (i : CAMInput) : RocketCAM n where
  vbArray :=
    if i.clear then fun _ => false
    else if i.clearHit then fun k => s.vbArray k && !s.hits i.tag k
    else if i.write then bitSet s.vbArray i.writeAddr true
    else s.vbArray
  camTags := fun k => if i.write && decide ((k : ℕ) = i.writeAddr) then i.writeTag else s.camTags k

variable {s : RocketCAM n} {i : CAMInput} {k : Fin n}

theorem hits_eq_true {tag : ℕ} :
    s.hits tag k = true ↔ s.vbArray k = true ∧ s.camTags k = tag := by
  rw [hits, Bool.and_eq_true, beq_iff_eq]

/-- An entry that is valid after a cycle was written in it or was valid before. -/
theorem valid_of_next (h : (s.next i).vbArray k = true) : i.clear = false ∧
      (i.write = true ∧ (k : ℕ) = i.writeAddr ∧ (s.next i).camTags k = i.writeTag ∨
        ¬(i.write = true ∧ (k : ℕ) = i.writeAddr) ∧ s.vbArray k = true ∧
          (s.next i).camTags k = s.camTags k) := by
  have hclear : i.clear = false := by
    rw [← Bool.not_eq_true]
    intro hclear
    rw [next, if_pos hclear] at h
    cases h
  rw [next, hclear, if_neg (by simp)] at h
  refine ⟨hclear, ?_⟩
  by_cases hwritten : i.write = true ∧ (k : ℕ) = i.writeAddr
  · refine .inl ⟨hwritten.1, hwritten.2, if_pos ?_⟩
    rw [hwritten.1, decide_eq_true hwritten.2]
    rfl
  · refine .inr ⟨hwritten, ?_, if_neg ?_⟩
    · by_cases hhit : i.clearHit = true
      · rw [if_pos hhit] at h
        exact (Bool.and_eq_true_iff.mp h).1
      rw [if_neg hhit] at h
      by_cases hwrite : i.write = true
      · rw [if_pos hwrite] at h
        exact (bitSet_of_ne fun hk => hwritten ⟨hwrite, hk⟩).symm.trans h
      · rwa [if_neg hwrite] at h
    · rwa [Bool.and_eq_true, decide_eq_true_eq]

end RocketCAM

/-! ### `PseudoLRU` -/

namespace PseudoLRU

/-- The state after an access. The bits from the root to the way are set to point away from it. -/
def access (state : Fin n → Bool) (way : ℕ) : Fin n → Bool :=
  ((List.range (log2Up n)).reverse.foldl (fun (x : (Fin n → Bool) × ℕ) i =>
    (bitSet x.1 x.2 !way.testBit i, cat x.2 1 (way.testBit i).toNat)) (state, 1)).1

/-- The way the bits point to. -/
def replace (state : Fin n → Bool) : ℕ :=
  ((List.range (log2Up n)).foldl (fun idx _ => cat idx 1 (bitAt state idx).toNat) 1) %
    2 ^ log2Up n

end PseudoLRU

/-! ### `TLB` -/

inductive TLBState
  | sReady | sRequest | sWait | sWaitInvalidate
  deriving DecidableEq, Repr

structure TLB (n : ℕ) where
  state : TLBState
  rRefillTag : ℕ
  rRefillWaddr : ℕ
  tagCam : RocketCAM n
  tagRam : Fin n → ℕ
  urArray : Fin n → Bool
  uwArray : Fin n → Bool
  uxArray : Fin n → Bool
  srArray : Fin n → Bool
  swArray : Fin n → Bool
  sxArray : Fin n → Bool
  plru : Fin n → Bool

structure TLBReq where
  asid : ℕ
  vpn : ℕ
  passthrough : Bool
  instruction : Bool

/-- What the buffer sees in one cycle. -/
structure TLBInput where
  reqValid : Bool
  req : TLBReq
  /-- `io.ptw.status.vm`. -/
  vm : Bool
  /-- `io.ptw.status.s`. -/
  sup : Bool
  ptwReqReady : Bool
  ptwResp : Option PTWResp
  invalidate : Bool

structure TLBResp where
  miss : Bool
  ppn : ℕ
  xcptLd : Bool
  xcptSt : Bool
  xcptIf : Bool

namespace TLB

variable (c : AddressSpaceConfiguration) (s : TLB n) (i : TLBInput)

def lookupTag : ℕ := cat i.req.asid (c.vpnBits + 1) i.req.vpn

/-- A tag on the ports of the CAM, one bit narrower than `lookup_tag`. -/
def camTag (tag : ℕ) : ℕ := tag % 2 ^ (c.asidBits + c.vpnBits)

def hits : Fin n → Bool := s.tagCam.hits (camTag c (lookupTag c i))

def tagHit : Bool := s.tagCam.hit (camTag c (lookupTag c i))

def badVa : Bool := i.req.vpn.testBit c.vpnBits != i.req.vpn.testBit (c.vpnBits - 1)

def tlbHit : Bool := i.vm && s.tagHit c i

def tlbMiss : Bool := i.vm && !s.tagHit c i && !badVa c i

/-- A permission of the entry that hits, in the mode of the processor. -/
def granted (sup user : Fin n → Bool) : Bool :=
  if i.sup then orR fun k => sup k && s.hits c i k else orR fun k => user k && s.hits c i k

/-- The lookup, which takes no cycle. -/
def resp : TLBResp where
  miss := s.tlbMiss c i
  ppn := if i.vm && !i.req.passthrough then mux1H (s.hits c i) s.tagRam
    else bits i.req.vpn (c.ppnBits - 1) 0
  xcptLd := badVa c i || s.tlbHit c i && !s.granted c i s.srArray s.urArray
  xcptSt := badVa c i || s.tlbHit c i && !s.granted c i s.swArray s.uwArray
  xcptIf := badVa c i || s.tlbHit c i && !s.granted c i s.sxArray s.uxArray

def reqReady : Bool := decide (s.state = .sReady)

def reqFire : Bool := i.reqValid && s.reqReady

def ptwReqValid : Bool := decide (s.state = .sRequest)

/-- `io.ptw.req.bits`, cut to the width of the port. -/
def ptwReqBits : ℕ := s.rRefillTag % 2 ^ c.vpnBits

def camInput : CAMInput where
  clear := i.invalidate
  clearHit := s.reqFire i && if i.req.instruction then (s.resp c i).xcptIf
    else (s.resp c i).xcptLd && (s.resp c i).xcptSt
  tag := camTag c (lookupTag c i)
  write := decide (s.state = .sWait) && i.ptwResp.isSome
  writeTag := camTag c s.rRefillTag
  writeAddr := s.rRefillWaddr

def replWaddr : ℕ :=
  match priorityEncoder fun k => !s.tagCam.vbArray k with
  | some k => k
  | none => PseudoLRU.replace s.plru

def nextState : TLBState :=
  if i.ptwResp.isSome then .sReady
  else match s.state with
    | .sReady => if s.reqFire i && s.tlbMiss c i then .sRequest else .sReady
    | .sRequest =>
      if i.ptwReqReady then if i.invalidate then .sWaitInvalidate else .sWait
      else if i.invalidate then .sReady
      else .sRequest
    | .sWait => if i.invalidate then .sWaitInvalidate else .sWait
    | .sWaitInvalidate => .sWaitInvalidate

/-- A permission array after a cycle. The walker's answer is written whether it is still wanted or
not. -/
def nextPerm (a : Fin n → Bool) (bit : ℕ) : Fin n → Bool :=
  match i.ptwResp with
  | some r => bitSet a s.rRefillWaddr ((if r.error then 0 else r.perm).testBit bit)
  | none => a

/-- One cycle. -/
def next : TLB n where
  state := s.nextState c i
  rRefillTag := if s.reqFire i && s.tlbMiss c i then lookupTag c i else s.rRefillTag
  rRefillWaddr := if s.reqFire i && s.tlbMiss c i then s.replWaddr else s.rRefillWaddr
  tagCam := s.tagCam.next (s.camInput c i)
  tagRam := match i.ptwResp with
    | some r => fun k => if (k : ℕ) = s.rRefillWaddr then r.ppn else s.tagRam k
    | none => s.tagRam
  urArray := s.nextPerm i s.urArray 0
  uwArray := s.nextPerm i s.uwArray 1
  uxArray := s.nextPerm i s.uxArray 2
  srArray := s.nextPerm i s.srArray 3
  swArray := s.nextPerm i s.swArray 4
  sxArray := s.nextPerm i s.sxArray 5
  plru := if i.reqValid && s.tlbHit c i then PseudoLRU.access s.plru (ohIndex (s.hits c i))
    else s.plru

def IsReset (s : TLB n) : Prop := s.state = .sReady ∧ ∀ k, s.tagCam.vbArray k = false

end TLB

/-! ### The walks -/

/-- What the walker has been asked and has answered. -/
structure WalkLog where
  /-- The page of the walk in flight, and whether no invalidation has come since it began. -/
  inFlight : Option (ℕ × Bool)
  /-- What walks have returned that began, and returned, after the last invalidation. -/
  returned : List (ℕ × PTWResp)

namespace TLB

variable (c : AddressSpaceConfiguration) (s : TLB n) (i : TLBInput)

/-- The walk that answers in this cycle, if it may still be used. -/
def returns (h : WalkLog) : Option (ℕ × PTWResp) :=
  match h.inFlight, i.ptwResp with
  | some (vpn, true), some r => some (vpn, r)
  | _, _ => none

/-- The history sees one cycle. -/
def logNext (h : WalkLog) : WalkLog where
  inFlight :=
    if s.ptwReqValid && i.ptwReqReady then some (s.ptwReqBits c, !i.invalidate)
    else if i.ptwResp.isSome then none
    else h.inFlight.map fun w => (w.1, w.2 && !i.invalidate)
  returned := if i.invalidate then [] else (returns i h).toList ++ h.returned

/-- The buffer in front of a walker that answers only what it has accepted. -/
def machine (n : ℕ) : Machine (TLB n × WalkLog) TLBInput :=
  ((Machine.clocked IsReset (next c)).observe ⟨none, []⟩ (logNext c)).restrict
    fun s i => i.ptwResp.isSome = true → s.2.inFlight.isSome = true

/-! ### The invariant -/

variable {c s i} {h : WalkLog}

theorem camTag_page (tag : ℕ) : camTag c tag % 2 ^ c.vpnBits = tag % 2 ^ c.vpnBits :=
  Nat.mod_mod_of_dvd tag (Nat.pow_dvd_pow 2 (Nat.le_add_left ..))

theorem lookupTag_page : lookupTag c i % 2 ^ c.vpnBits = i.req.vpn % 2 ^ c.vpnBits := by
  rw [lookupTag, cat, pow_succ, ← Nat.mul_assoc, Nat.mul_right_comm, Nat.add_comm,
    Nat.add_mul_mod_self_right]

/-- Entry `k` holds the answer `r` of a walk. -/
structure Holds (s : TLB n) (k : Fin n) (r : PTWResp) : Prop where
  ppn : s.tagRam k = r.ppn
  ur : s.urArray k = (if r.error then 0 else r.perm).testBit 0
  uw : s.uwArray k = (if r.error then 0 else r.perm).testBit 1
  ux : s.uxArray k = (if r.error then 0 else r.perm).testBit 2
  sr : s.srArray k = (if r.error then 0 else r.perm).testBit 3
  sw : s.swArray k = (if r.error then 0 else r.perm).testBit 4
  sx : s.sxArray k = (if r.error then 0 else r.perm).testBit 5

variable {r : PTWResp} {k : Fin n}

theorem Holds.of_resp (hresp : i.ptwResp = some r)
    (hk : (k : ℕ) = s.rRefillWaddr) : (s.next c i).Holds k r := by
  constructor <;> simp only [next, nextPerm, hresp, if_pos hk, bitSet_self hk]

theorem Holds.next (hholds : s.Holds k r)
    (hk : i.ptwResp.isSome = true → (k : ℕ) ≠ s.rRefillWaddr) : (s.next c i).Holds k r := by
  cases hresp : i.ptwResp with
  | none =>
    constructor <;> simp only [TLB.next, nextPerm, hresp]
    exacts [hholds.ppn, hholds.ur, hholds.uw, hholds.ux, hholds.sr, hholds.sw, hholds.sx]
  | some r' =>
    have hne : (k : ℕ) ≠ s.rRefillWaddr := hk (by rw [hresp]; rfl)
    constructor <;> simp only [TLB.next, nextPerm, hresp, if_neg hne, bitSet_of_ne hne]
    exacts [hholds.ppn, hholds.ur, hholds.uw, hholds.ux, hholds.sr, hholds.sw, hholds.sx]

/-- What holds between cycles. -/
structure Invariant (c : AddressSpaceConfiguration) (s : TLB n) (h : WalkLog) : Prop where
  idle : s.state = .sReady ∨ s.state = .sRequest → h.inFlight = none
  waits : s.state = .sWait → h.inFlight = some (s.ptwReqBits c, true)
  drops : s.state = .sWaitInvalidate → ∃ vpn, h.inFlight = some (vpn, false)
  /-- While an answer that is not wanted is on its way, nothing is valid, so it hits nothing. -/
  empty : s.state = .sWaitInvalidate → ∀ k, s.tagCam.vbArray k = false
  /-- The tag of the refill is not in the buffer. -/
  absent : s.state ≠ .sReady → ∀ k, s.tagCam.vbArray k = true →
    s.tagCam.camTags k ≠ camTag c s.rRefillTag
  unique : ∀ j k, s.tagCam.vbArray j = true → s.tagCam.vbArray k = true →
    s.tagCam.camTags j = s.tagCam.camTags k → j = k
  holds : ∀ k, s.tagCam.vbArray k = true → ∃ r,
    (s.tagCam.camTags k % 2 ^ c.vpnBits, r) ∈ h.returned ∧ s.Holds k r

theorem IsReset.invariant (hreset : s.IsReset) : s.Invariant c ⟨none, []⟩ := by
  obtain ⟨hstate, hempty⟩ := hreset
  refine ⟨fun _ => rfl, ?_, ?_, fun _ => hempty, ?_, ?_, ?_⟩
  · intro hwait
    rw [hstate] at hwait
    cases hwait
  · intro hwait
    rw [hstate] at hwait
    cases hwait
  · intro _ k hk
    rw [hempty k] at hk
    cases hk
  · intro j k hj
    rw [hempty j] at hj
    cases hj
  · intro k hk
    rw [hempty k] at hk
    cases hk

/-- An entry that is valid after a cycle: written with an answer that may be used, or kept. -/
theorem valid_of_next (hvalid : (s.next c i).tagCam.vbArray k = true) :
    i.invalidate = false ∧
      (s.state = .sWait ∧ i.ptwResp.isSome = true ∧ (k : ℕ) = s.rRefillWaddr ∧
          (s.next c i).tagCam.camTags k = camTag c s.rRefillTag ∨
        ¬(s.state = .sWait ∧ i.ptwResp.isSome = true ∧ (k : ℕ) = s.rRefillWaddr) ∧
          s.tagCam.vbArray k = true ∧
          (s.next c i).tagCam.camTags k = s.tagCam.camTags k) := by
  have hwrite : (s.camInput c i).write = true ↔ s.state = .sWait ∧ i.ptwResp.isSome = true := by
    show (decide _ && _) = true ↔ _
    rw [Bool.and_eq_true, decide_eq_true_eq]
  obtain ⟨hclear, hcases⟩ := RocketCAM.valid_of_next hvalid
  refine ⟨hclear, ?_⟩
  simp only [hwrite, and_assoc] at hcases
  exact hcases

theorem reqFire_of_ne (hstate : s.state ≠ .sReady) : s.reqFire i = false := by
  rw [reqFire, reqReady, decide_eq_false hstate, Bool.and_false]

theorem refillTag_of_ne (hstate : s.state ≠ .sReady) :
    (s.next c i).rRefillTag = s.rRefillTag := by
  refine if_neg ?_
  rw [reqFire_of_ne hstate, Bool.false_and]
  exact Bool.false_ne_true

/-- How the state changes while no answer comes, and what becomes of the walk in flight. -/
theorem Invariant.flight_of_none (hi : s.Invariant c h) (hresp : i.ptwResp = none) :
    ((s.next c i).state = .sReady ∨ (s.next c i).state = .sRequest →
        (logNext c s i h).inFlight = none) ∧
      ((s.next c i).state = .sWait →
        (logNext c s i h).inFlight = some ((s.next c i).ptwReqBits c, true)) ∧
      ((s.next c i).state = .sWaitInvalidate →
        ∃ vpn, (logNext c s i h).inFlight = some (vpn, false)) := by
  have hstate : (s.next c i).state = s.nextState c i := rfl
  have hbits (hne : s.state ≠ .sReady) : (s.next c i).ptwReqBits c = s.ptwReqBits c := by
    rw [ptwReqBits, refillTag_of_ne hne, ptwReqBits]
  rw [hstate]
  cases hs : s.state with
  | sReady =>
    have hidle := hi.idle (.inl hs)
    simp only [nextState, logNext, ptwReqValid, hresp, hs, hidle, Option.isSome_none,
      Option.map_none, Bool.false_eq_true, if_false]
    split <;> simp
  | sRequest =>
    have hidle := hi.idle (.inr hs)
    rw [hbits (by rw [hs]; exact TLBState.noConfusion)]
    simp only [nextState, logNext, ptwReqValid, hresp, hs, hidle, Option.isSome_none,
      Option.map_none]
    cases i.ptwReqReady <;> cases i.invalidate <;> simp
  | sWait =>
    have hwaits := hi.waits hs
    rw [hbits (by rw [hs]; exact TLBState.noConfusion)]
    simp only [nextState, logNext, ptwReqValid, hresp, hs, hwaits, Option.isSome_none,
      Option.map_some]
    cases i.invalidate <;> simp
  | sWaitInvalidate =>
    obtain ⟨vpn, hdrops⟩ := hi.drops hs
    simp only [nextState, logNext, ptwReqValid, hresp, hs, hdrops, Option.isSome_none,
      Option.map_some]
    simp

theorem Invariant.flight_of_some (hi : s.Invariant c h) (hresp : i.ptwResp.isSome = true)
    (hanswers : h.inFlight.isSome = true) :
    (s.next c i).state = .sReady ∧ (logNext c s i h).inFlight = none := by
  have hbusy : s.ptwReqValid = false := by
    refine decide_eq_false ?_
    intro hs
    rw [hi.idle (.inr hs)] at hanswers
    cases hanswers
  constructor
  · exact if_pos hresp
  · show (if s.ptwReqValid && i.ptwReqReady then _ else _) = none
    rw [hbusy, Bool.false_and, if_neg (by simp), if_pos hresp]

theorem Invariant.waits_of_resp (hi : s.Invariant c h) (hanswers : h.inFlight.isSome = true) :
    s.state = .sWait ∨ s.state = .sWaitInvalidate := by
  cases hs : s.state with
  | sReady =>
    rw [hi.idle (.inl hs)] at hanswers
    cases hanswers
  | sRequest =>
    rw [hi.idle (.inr hs)] at hanswers
    cases hanswers
  | sWait => exact .inl rfl
  | sWaitInvalidate => exact .inr rfl

theorem drops_of_next (hdrop : (s.next c i).state = .sWaitInvalidate) :
    i.invalidate = true ∨ s.state = .sWaitInvalidate := by
  have hstate : s.nextState c i = .sWaitInvalidate := hdrop
  by_contra hno
  obtain ⟨hinv, hs⟩ := not_or.mp hno
  rw [nextState] at hstate
  split at hstate
  · cases hstate
  · cases hcase : s.state with
    | sReady =>
      simp only [hcase] at hstate
      split at hstate <;> cases hstate
    | sRequest =>
      simp only [hcase] at hstate
      split at hstate <;> cases hstate
    | sWait =>
      simp only [hcase] at hstate
      cases hstate
    | sWaitInvalidate => exact hs hcase

/-- A valid entry that is kept has not lost what it holds: the one entry an answer overwrites
without the CAM is the one of a walk that is not wanted, and then none is valid. -/
theorem Invariant.holds_kept (hi : s.Invariant c h)
    (hanswers : i.ptwResp.isSome = true → h.inFlight.isSome = true)
    (hkept : ¬(s.state = .sWait ∧ i.ptwResp.isSome = true ∧ (k : ℕ) = s.rRefillWaddr))
    (hvalid : s.tagCam.vbArray k = true) (hr : s.Holds k r) :
    (s.next c i).Holds k r := by
  refine hr.next ?_
  intro hresp hk
  rcases hi.waits_of_resp (hanswers hresp) with hs | hs
  · exact hkept ⟨hs, hresp, hk⟩
  · rw [hi.empty hs k] at hvalid
    cases hvalid

/-- **The invariant is kept by every cycle.** -/
theorem Invariant.next (hi : s.Invariant c h)
    (hanswers : i.ptwResp.isSome = true → h.inFlight.isSome = true) :
    (s.next c i).Invariant c (logNext c s i h) := by
  have hflight : ((s.next c i).state = .sReady ∨ (s.next c i).state = .sRequest →
        (logNext c s i h).inFlight = none) ∧
      ((s.next c i).state = .sWait →
        (logNext c s i h).inFlight = some ((s.next c i).ptwReqBits c, true)) ∧
      ((s.next c i).state = .sWaitInvalidate →
        ∃ vpn, (logNext c s i h).inFlight = some (vpn, false)) := by
    cases hresp : i.ptwResp with
    | none => exact hi.flight_of_none hresp
    | some r =>
      have hsome : i.ptwResp.isSome = true := by rw [hresp]; rfl
      obtain ⟨hs, hnone⟩ := hi.flight_of_some hsome (hanswers hsome)
      rw [hs, hnone]
      simp
  refine ⟨hflight.1, hflight.2.1, hflight.2.2, ?_, ?_, ?_, ?_⟩
  · -- an invalidation empties the buffer, and nothing is written before the answer
    intro hdrop k
    rw [← Bool.not_eq_true]
    intro hvalid
    obtain ⟨hinv, ⟨-, hresp, -⟩ | ⟨-, hold, -⟩⟩ := valid_of_next hvalid
    · rw [show (s.next c i).state = .sReady from if_pos hresp] at hdrop
      cases hdrop
    · rcases drops_of_next hdrop with hinv' | hs
      · rw [hinv] at hinv'
        cases hinv'
      · rw [hi.empty hs k] at hold
        cases hold
  · intro hbusy k hvalid
    have hresp : ¬i.ptwResp.isSome = true := fun hresp => hbusy (if_pos hresp)
    obtain ⟨-, ⟨-, hresp', -⟩ | ⟨-, hold, htag⟩⟩ := valid_of_next hvalid
    · exact absurd hresp' hresp
    rw [htag]
    by_cases hs : s.state = .sReady
    · -- the refill of a lookup that has just missed
      have hmiss : (s.reqFire i && s.tlbMiss c i) = true := by
        by_contra hno
        refine hbusy ?_
        show s.nextState c i = .sReady
        rw [nextState, if_neg hresp, hs]
        exact if_neg hno
      have htag' : (s.next c i).rRefillTag = lookupTag c i := if_pos hmiss
      rw [htag']
      intro heq
      have hmiss' := (Bool.and_eq_true_iff.mp hmiss).2
      have hhit : s.tagHit c i = true :=
        orR_eq_true.mpr ⟨k, RocketCAM.hits_eq_true.mpr ⟨hold, heq⟩⟩
      rw [tlbMiss, hhit] at hmiss'
      simp at hmiss'
    · rw [refillTag_of_ne hs]
      exact hi.absent hs k hold
  · intro j k hj hk heq
    obtain ⟨-, ⟨hs, -, hj', htagj⟩ | ⟨-, hoj, htagj⟩⟩ := valid_of_next hj <;>
      obtain ⟨-, ⟨hs', -, hk', htagk⟩ | ⟨-, hok, htagk⟩⟩ := valid_of_next hk
    · exact Fin.ext (hj'.trans hk'.symm)
    · rw [htagj, htagk] at heq
      exact absurd heq.symm (hi.absent (by rw [hs]; exact TLBState.noConfusion) k hok)
    · rw [htagj, htagk] at heq
      exact absurd heq (hi.absent (by rw [hs']; exact TLBState.noConfusion) j hoj)
    · rw [htagj, htagk] at heq
      exact hi.unique j k hoj hok heq
  · intro k hvalid
    obtain ⟨hinv, ⟨hs, hresp, hk, htag⟩ | ⟨hkept, hold, htag⟩⟩ := valid_of_next hvalid
    · obtain ⟨r, hr⟩ := Option.isSome_iff_exists.mp hresp
      refine ⟨r, ?_, Holds.of_resp hr hk⟩
      have hreturns : returns i h = some (s.ptwReqBits c, r) := by
        rw [returns, hi.waits hs, hr]
      show _ ∈ if i.invalidate then [] else (returns i h).toList ++ h.returned
      rw [hinv, if_neg (by simp), hreturns, htag, camTag_page]
      exact List.mem_cons_self
    · obtain ⟨r, hmem, hr⟩ := hi.holds k hold
      refine ⟨r, ?_, hi.holds_kept hanswers hkept hold hr⟩
      show _ ∈ if i.invalidate then [] else (returns i h).toList ++ h.returned
      rw [hinv, if_neg (by simp), htag]
      exact List.mem_append_right _ hmem

theorem reachable_invariant {x : TLB n × WalkLog} (hx : (machine c n).Reachable x) :
    x.1.Invariant c x.2 := by
  refine Machine.invariant (I := fun x => x.1.Invariant c x.2) ?_ ?_ x hx
  · rintro ⟨s, h⟩ ⟨hreset, rfl⟩
    exact hreset.invariant
  · rintro ⟨s, h⟩ i ⟨s', h'⟩ - hi ⟨hanswers, rfl, rfl⟩
    exact hi.next hanswers

/-! ### Transparency -/

/-- The walker's answer for a page under a page table. -/
def Answers (table : ℕ → Option (ℕ × ℕ)) (vpn : ℕ) (r : PTWResp) : Prop :=
  match table vpn with
  | some (ppn, perm) => r.error = false ∧ r.ppn = ppn ∧ r.perm = perm
  | none => r.error = true

/-- The response of a buffer that looks the page up in the page table itself. -/
def LooksUp (c : AddressSpaceConfiguration) (table : ℕ → Option (ℕ × ℕ)) (i : TLBInput)
    (r : TLBResp) : Prop :=
  match table (i.req.vpn % 2 ^ c.vpnBits) with
  | some (ppn, perm) => (i.req.passthrough = false → r.ppn = ppn) ∧
      r.xcptLd = (badVa c i || !perm.testBit (if i.sup then 3 else 0)) ∧
      r.xcptSt = (badVa c i || !perm.testBit (if i.sup then 4 else 1)) ∧
      r.xcptIf = (badVa c i || !perm.testBit (if i.sup then 5 else 2))
  | none => r.xcptLd = true ∧ r.xcptSt = true ∧ r.xcptIf = true

theorem Invariant.hits_unique (hi : s.Invariant c h) {tag : ℕ} {j k : Fin n}
    (hj : s.tagCam.hits tag j = true) (hk : s.tagCam.hits tag k = true) : j = k := by
  rw [RocketCAM.hits_eq_true] at hj hk
  exact hi.unique j k hj.1 hk.1 (hj.2.trans hk.2.symm)

/-- The permission that a hit grants is that of the entry. -/
theorem granted_eq (hsel : ∀ j, s.hits c i j = true ↔ j = k) (sup user : Fin n → Bool) :
    s.granted c i sup user = if i.sup then sup k else user k := by
  rw [granted, orR_and_eq hsel, orR_and_eq hsel]

/-- **A hit is what the walker would answer.** -/
theorem Invariant.resp_of_hit (hi : s.Invariant c h) {table : ℕ → Option (ℕ × ℕ)}
    (htable : ∀ vpn r, (vpn, r) ∈ h.returned → Answers table vpn r)
    (hhit : s.tlbHit c i = true) : LooksUp c table i (s.resp c i) := by
  obtain ⟨hvm, htag⟩ := Bool.and_eq_true_iff.mp hhit
  obtain ⟨k, hk⟩ := orR_eq_true.mp htag
  have hsel (j : Fin n) : s.hits c i j = true ↔ j = k :=
    ⟨fun hj => hi.hits_unique hj hk, fun hj => hj ▸ hk⟩
  obtain ⟨hvalid, htagk⟩ := RocketCAM.hits_eq_true.mp hk
  obtain ⟨r, hmem, hholds⟩ := hi.holds k hvalid
  have hanswers := htable _ r hmem
  rw [htagk, camTag_page, lookupTag_page] at hanswers
  have hxcpt (sup user : Fin n → Bool) {b b' : ℕ}
      (hsup : sup k = (if r.error then 0 else r.perm).testBit b)
      (huser : user k = (if r.error then 0 else r.perm).testBit b') :
      (badVa c i || s.tlbHit c i && !s.granted c i sup user) =
        (badVa c i || !(if r.error then 0 else r.perm).testBit (if i.sup then b else b')) := by
    rw [hhit, granted_eq hsel, hsup, huser]
    cases i.sup <;> rfl
  have hld : (s.resp c i).xcptLd = _ := hxcpt s.srArray s.urArray hholds.sr hholds.ur
  have hst : (s.resp c i).xcptSt = _ := hxcpt s.swArray s.uwArray hholds.sw hholds.uw
  have hif : (s.resp c i).xcptIf = _ := hxcpt s.sxArray s.uxArray hholds.sx hholds.ux
  rw [Answers] at hanswers
  rw [LooksUp]
  split at hanswers
  · obtain ⟨herror, hppn, hperm⟩ := hanswers
    rw [herror, if_neg (by simp), hperm] at hld hst hif
    refine ⟨?_, hld, hst, hif⟩
    intro hpass
    rw [resp, hvm, hpass, ← hppn, ← hholds.ppn]
    exact mux1H_eq hsel
  · rw [hanswers, if_pos rfl, Nat.zero_testBit, Bool.not_false, Bool.or_true] at hld hst hif
    exact ⟨hld, hst, hif⟩

/-- After an invalidation, and while the answer of an older walk is still to come, nothing is
valid. -/
theorem Invariant.none_valid (hi : s.Invariant c h)
    (hstale : (∃ vpn, h.inFlight = some (vpn, false)) ∨ i.invalidate = true) (k : Fin n) :
    (s.next c i).tagCam.vbArray k = false := by
  rw [← Bool.not_eq_true]
  intro hvalid
  obtain ⟨hinv, hcases⟩ := valid_of_next hvalid
  rcases hstale with ⟨vpn, hvpn⟩ | hinv'
  · have hs : s.state = .sWaitInvalidate := by
      have hwaits := hi.waits_of_resp (by rw [hvpn]; rfl)
      refine hwaits.resolve_left ?_
      intro hs
      rw [hi.waits hs] at hvpn
      cases hvpn
    rcases hcases with ⟨hs', -⟩ | ⟨-, hold, -⟩
    · rw [hs] at hs'
      cases hs'
    · rw [hi.empty hs k] at hold
      cases hold
  · rw [hinv] at hinv'
    cases hinv'

/-- **The buffer is transparent.** At most one entry matches a tag. A valid entry holds what a walk
for its page has returned that began after the last invalidation. If those walks have answered from
one page table, a lookup that hits says what that page table says, whatever the buffer is doing. And
the answer of a walk over which an invalidation has come leaves nothing valid. -/
theorem tlb_transparent (c : AddressSpaceConfiguration) (n : ℕ) :
    (∀ s h, (machine c n).Reachable (s, h) → ∀ tag j k,
      s.tagCam.hits tag j = true → s.tagCam.hits tag k = true → j = k) ∧
    (∀ s h, (machine c n).Reachable (s, h) → ∀ k, s.tagCam.vbArray k = true →
      ∃ r, (s.tagCam.camTags k % 2 ^ c.vpnBits, r) ∈ h.returned ∧ s.Holds k r) ∧
    (∀ s h, (machine c n).Reachable (s, h) → ∀ table,
      (∀ vpn r, (vpn, r) ∈ h.returned → Answers table vpn r) →
      ∀ i, s.tlbHit c i = true → LooksUp c table i (s.resp c i)) ∧
    ∀ s h, (machine c n).Reachable (s, h) → ∀ i,
      (∃ vpn, h.inFlight = some (vpn, false)) ∨ i.invalidate = true →
      ∀ k, (s.next c i).tagCam.vbArray k = false := by
  refine ⟨?_, ?_, ?_, ?_⟩
  · intro s h hx tag j k hj hk
    exact (reachable_invariant hx).hits_unique hj hk
  · intro s h hx
    exact (reachable_invariant hx).holds
  · intro s h hx table htable i hhit
    exact (reachable_invariant hx).resp_of_hit htable hhit
  · intro s h hx i hstale k
    exact (reachable_invariant hx).none_valid hstale k

end TLB

end RiscvSoc
