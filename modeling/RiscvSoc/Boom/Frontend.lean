import RiscvSoc.Boom.BranchPredict

/-!
# The front end

`Frontend` from `boom/src/main/scala/icache.scala`, one clock cycle at a time: the program counter
of the first stage, the response of the second, and what moves them. The instruction cache, the
translation buffer and the branch target buffer are left to the outside, apart from three things
they say themselves: the cache has no answer in the first cycle, an address whose upper bits
disagree faults, and an entry for a slot before the address is no hit.

## What the second stage is followed by

While the second stage has something to show, the first one holds the address behind it. That is
what lets the front end go on without a redirect (`Front.follows`). It is false right after reset,
when the first program counter is arbitrary; then the cache has no answer, and the first stage is
loaded from the second.

A response with a fault does not wait for the cache. If the cache has no answer then, the bundle is
handed over and fetched once more.
-/

namespace RiscvSoc

variable {W : ℕ} [NeZero W]

/-- `START_ADDR`. -/
def startAddr : VAddr := 0x2000#44

structure Frontend (W : ℕ) where
  s1Pc_ : VAddr
  s2Valid : Bool
  s2Pc : VAddr
  s2BtbHit : Bool
  s2BtbHitIdx : Fin W
  s2XcptIf : Bool
  s2DebugTakenPc : VAddr
  /-- `s2_valid` of the instruction cache. -/
  icacheValid : Bool

structure FrontendInput (W : ℕ) where
  /-- The tags of the instruction cache match. -/
  icacheHit : Bool
  data : Fin W → BitVec 32
  /-- What `s2_valid` of the instruction cache becomes. -/
  icacheValid : Bool
  /-- A fault of the page, not of the address. -/
  pageFault : Bool
  /-- The entry of the branch target buffer whose tag matches: its slot, and its target. -/
  btb : Option (Fin W × BitVec 43)
  req : Option VAddr
  respReady : Bool

namespace Frontend

variable (s : Frontend W) (i : FrontendInput W)

def s1Pc : VAddr := discardLsb s.s1Pc_

/-- `icache.io.resp.valid`. -/
def icacheResp : Bool := s.icacheValid && i.icacheHit

def icmiss : Bool := s.s2Valid && !s.icacheResp i

/-- `btb.io.hit`: no entry for a slot before the address. -/
def btbHit : Option (Fin W × BitVec 43) :=
  i.btb.filter fun e => decide (fetchSlot W s.s1Pc ≤ e.1)

def btbTarget (t : BitVec 43) : VAddr := BitVec.ofBool (t.getLsbD 42) ++ t

def predictedNpc : VAddr :=
  match s.btbHit i with
  | some e => btbTarget e.2
  | none => pcp4 W s.s1Pc

def npc : VAddr := if s.icmiss i then s.s2Pc else s.predictedNpc i

/-- `io.cpu.resp`. -/
def resp : Option (FrontendResp W) :=
  if s.s2Valid && (s.s2XcptIf || s.icacheResp i) then
    some ⟨s.s2Pc, i.data, s.s2BtbHit, s.s2BtbHitIdx, s.s2DebugTakenPc, s.s2XcptIf⟩
  else none

def stall : Bool := (s.resp i).isSome && !i.respReady

/-- The registers without a request. -/
def moved : Frontend W :=
  if s.stall i then { s with icacheValid := i.icacheValid }
  else if s.icmiss i then
    { s with s1Pc_ := s.npc i, s2Valid := false, icacheValid := i.icacheValid }
  else
    { s1Pc_ := s.npc i
      s2Valid := true
      s2Pc := s.s1Pc
      s2BtbHit := (s.btbHit i).isSome
      s2BtbHitIdx := ((s.btbHit i).map (·.1)).getD 0
      s2XcptIf := !goodVAddr s.s1Pc || i.pageFault
      s2DebugTakenPc := btbTarget (((s.btbHit i).map (·.2)).getD 0)
      icacheValid := i.icacheValid }

/-- One cycle. -/
def next : Frontend W :=
  match i.req with
  | some pc => { s.moved i with s1Pc_ := pc, s2Valid := false }
  | none => s.moved i

/-- Reset: nothing says what the first program counter holds. -/
structure IsReset : Prop where
  s2Valid : s.s2Valid = true
  s2Pc : s.s2Pc = startAddr
  s2BtbHit : s.s2BtbHit = false
  s2XcptIf : s.s2XcptIf = false
  icacheValid : s.icacheValid = false

/-- The front end after reset, every other register cleared. -/
def reset (W : ℕ) [NeZero W] : Frontend W := ⟨0, true, startAddr, false, 0, false, 0, false⟩

theorem isReset_reset : (reset W).IsReset := ⟨rfl, rfl, rfl, rfl, rfl⟩

/-- The address of the bundle that is handed over next. -/
def nextAddr : VAddr := if s.s2Valid then s.s2Pc else s.s1Pc

/-- The address behind the bundle in the second stage. -/
def after : VAddr := discardLsb (if s.s2BtbHit then s.s2DebugTakenPc else pcp4 W s.s2Pc)

end Frontend

/-! ### The invariant -/

structure Front (s : Frontend W) : Prop where
  even : discardLsb s.s2Pc = s.s2Pc
  hit : s.s2BtbHit = true → fetchSlot W s.s2Pc ≤ s.s2BtbHitIdx
  good : s.s2XcptIf = false → goodVAddr s.s2Pc = true
  follows : s.s2Valid = true → (s.s2XcptIf || s.icacheValid) = true → s.s1Pc = s.after

variable {s : Frontend W} {i : FrontendInput W} {r : FrontendResp W}

theorem discardLsb_discardLsb (a : VAddr) : discardLsb (discardLsb a) = discardLsb a := by
  apply BitVec.eq_of_toNat_eq
  rw [discardLsb_toNat, discardLsb_toNat]
  omega

namespace Front

theorem of_isReset (h : s.IsReset) : Front s where
  even := by
    rw [h.s2Pc]
    rfl
  hit hhit := by
    rw [h.s2BtbHit] at hhit
    cases hhit
  good _ := by
    rw [h.s2Pc]
    rfl
  follows _ hshows := by
    rw [h.s2XcptIf, h.icacheValid] at hshows
    cases hshows

theorem moved (h : Front s) : Front (s.moved i) := by
  rw [Frontend.moved]
  by_cases hstall : s.stall i = true
  · -- the response stays, and what it is followed by
    rw [if_pos hstall]
    refine ⟨h.even, h.hit, h.good, fun hvalid _ => h.follows hvalid ?_⟩
    rw [Frontend.stall, Bool.and_eq_true, Frontend.resp] at hstall
    by_contra hno
    rw [Bool.not_eq_true, Bool.or_eq_false_iff] at hno
    simp [Frontend.icacheResp, hno] at hstall
  rw [if_neg hstall]
  by_cases hmiss : s.icmiss i = true
  · rw [if_pos hmiss]
    exact ⟨h.even, h.hit, h.good, nofun⟩
  · rw [if_neg hmiss]
    refine ⟨discardLsb_discardLsb _, fun hhit => ?_, fun hgood => ?_, fun _ _ => ?_⟩
    · obtain ⟨e, he⟩ := Option.isSome_iff_exists.mp hhit
      have hslot := (Option.filter_eq_some_iff.mp he).2
      rw [he]
      exact of_decide_eq_true hslot
    · simpa using (Bool.or_eq_false_iff.mp hgood).1
    · rw [Frontend.s1Pc, Frontend.after, Frontend.npc, if_neg hmiss, Frontend.predictedNpc]
      cases s.btbHit i <;> rfl

/-- **The front end stays well formed.** -/
theorem next (h : Front s) : Front (s.next i) := by
  rw [Frontend.next]
  cases i.req with
  | none => exact h.moved
  | some pc => exact ⟨h.moved.even, h.moved.hit, h.moved.good, nofun⟩

/-! ### The response -/

omit [NeZero W] in
theorem s2Valid_of_resp (hr : s.resp i = some r) : s.s2Valid = true := by
  rw [Frontend.resp] at hr
  split at hr
  · rename_i hshows
    exact (Bool.and_eq_true_iff.mp hshows).1
  · cases hr

omit [NeZero W] in
theorem resp_eq (hr : s.resp i = some r) :
    r = ⟨s.s2Pc, i.data, s.s2BtbHit, s.s2BtbHitIdx, s.s2DebugTakenPc, s.s2XcptIf⟩ ∧
      (s.s2XcptIf || s.icacheResp i) = true := by
  rw [Frontend.resp] at hr
  split at hr
  · rename_i hshows
    cases hr
    exact ⟨rfl, (Bool.and_eq_true_iff.mp hshows).2⟩
  · cases hr

omit [NeZero W] in
theorem resp_pc (hr : s.resp i = some r) : r.pc = s.nextAddr := by
  rw [(resp_eq hr).1, Frontend.nextAddr, if_pos (s2Valid_of_resp hr)]

theorem resp_mask (h : Front s) (hr : s.resp i = some r) (htaken : r.taken = true) :
    r.mask r.takenIdx = true := by
  rw [(resp_eq hr).1] at htaken ⊢
  exact decide_eq_true (h.hit htaken)

theorem resp_good (h : Front s) (hr : s.resp i = some r) (hgo : r.xcptIf = false) :
    goodVAddr r.pc = true := by
  rw [(resp_eq hr).1] at hgo ⊢
  exact h.good hgo

/-! ### Where a cycle leads -/

theorem nextAddr_of_req {pc : VAddr} (hreq : i.req = some pc) :
    (s.next i).nextAddr = discardLsb pc ∧ (s.next i).s2Valid = false := by
  rw [Frontend.next, hreq]
  exact ⟨rfl, rfl⟩

theorem nextAddr_of_stays (h : Front s) (hreq : i.req = none)
    (hstays : s.resp i = none ∨ i.respReady = false) : (s.next i).nextAddr = s.nextAddr := by
  rw [Frontend.next, hreq]
  show (s.moved i).nextAddr = _
  rw [Frontend.moved]
  by_cases hstall : s.stall i = true
  · rw [if_pos hstall]
    rfl
  have hnone : s.resp i = none := by
    rcases hstays with hnone | hready
    · exact hnone
    · rw [Frontend.stall, hready] at hstall
      simpa using hstall
  rw [if_neg hstall]
  cases hvalid : s.s2Valid with
  | false =>
    have hmiss : s.icmiss i = false := by rw [Frontend.icmiss, hvalid]; rfl
    have hnext : s.nextAddr = s.s1Pc := if_neg (by rw [hvalid]; nofun)
    rw [if_neg (by rw [hmiss]; nofun), hnext]
    rfl
  | true =>
    -- the cache has no answer, and the bundle is fetched again
    have hmiss : s.icmiss i = true := by
      rw [Frontend.resp, hvalid] at hnone
      rw [Frontend.icmiss, hvalid]
      cases hcache : s.icacheResp i with
      | false => rfl
      | true => simp [hcache] at hnone
    have hnext : s.nextAddr = s.s2Pc := if_pos hvalid
    rw [if_pos hmiss, Frontend.npc, if_pos hmiss, hnext]
    exact h.even

/-- **A bundle that is taken is followed by what the second stage says**, unless it faulted. -/
theorem nextAddr_of_fire (h : Front s) (hreq : i.req = none) (hr : s.resp i = some r)
    (hready : i.respReady = true) (hgo : r.xcptIf = false) :
    (s.next i).nextAddr = discardLsb (if r.taken then r.debugTakenPc else pcp4 W r.pc) := by
  obtain ⟨rfl, hshows⟩ := resp_eq hr
  have hvalid := s2Valid_of_resp hr
  have hcache : s.icacheResp i = true := (Bool.or_eq_true_iff.mp hshows).resolve_left (by
    rw [show s.s2XcptIf = false from hgo]
    nofun)
  have hstall : s.stall i = false := by rw [Frontend.stall, hready, Bool.not_true, Bool.and_false]
  have hmiss : s.icmiss i = false := by rw [Frontend.icmiss, hcache, Bool.not_true, Bool.and_false]
  rw [Frontend.next, hreq]
  show (s.moved i).nextAddr = s.after
  rw [Frontend.moved, hstall, hmiss]
  show s.s1Pc = s.after
  refine h.follows hvalid ?_
  rw [(Bool.and_eq_true_iff.mp hcache).1, Bool.or_true]

end Front

end RiscvSoc
