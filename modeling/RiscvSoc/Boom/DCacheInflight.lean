import RiscvSoc.Boom.DCacheWrapper
import RiscvSoc.Lib.Machine

/-!
# Loads in flight

The wrapper in front of a cache that keeps its promise: a request it accepts it refuses two cycles
later, or it answers it once, from then on at any time and in any order. A request that is taken
back one cycle later it forgets. Requests are known by the cycle in which they were accepted, and
the answer to a request carries the tag the request came with; that is all the wrapper sees of it.

A history keeps the loads the wrapper accepted, and what the core was told about each.

## A flush in the cycle of the answer

A load is killed from the cycle after the flush on, so an answer in the very cycle of a flush is
still shown to the core. It is the one thing the core is told about this load, like any other
answer.
-/

namespace RiscvSoc

open DCacheWrapper

variable {c : BOOMConf} {n : ℕ}

/-- A request the cache has accepted, and whether it was taken back. -/
structure CacheReq (c : BOOMConf) (n : ℕ) where
  tag : Fin n
  uop : RobUop c
  killed : Bool

/-- A load the wrapper has accepted: its micro-op then and, while it is in flight, now; and whether
a mispredicted branch or a flush has killed it. -/
structure LoadRecord (c : BOOMConf) where
  uop : RobUop c
  current : RobUop c
  squashed : Bool

/-- What the core is told about a load. -/
inductive LoadOutcome (c : BOOMConf)
  | response (uop : RobUop c)
  | nack (isload : Bool) (lsuIdx : Fin c.lsuEntries)
  | nothing

/-- The wrapper, the requests the cache has not answered by the cycle in which they were accepted,
and the history. -/
structure DCacheSystem (c : BOOMConf) (n : ℕ) where
  wrapper : DCacheWrapper c n
  now : ℕ
  outstanding : ℕ → Option (CacheReq c n)
  loads : ℕ → Option (LoadRecord c)
  outcomes : ℕ → List (LoadOutcome c)

/-- What the core and the cache do in one cycle. -/
structure DCacheCycle (c : BOOMConf) where
  reqValid : Bool
  reqUop : RobUop c
  kill : Bool
  brinfo : Option (BrResolutionInfo c)
  flushPipe : Bool
  cacheReady : Bool
  cacheNack : Bool
  /-- The request that is answered. -/
  answer : Option ℕ

/-- A load that is in flight sees one cycle. -/
def LoadRecord.next (l : LoadRecord c) (a : DCacheCycle c) : LoadRecord c where
  uop := l.uop
  current := l.current.resolve a.brinfo
  squashed := l.squashed || a.flushPipe || isKilledByBranch a.brinfo l.current.brMask

namespace DCacheSystem

variable [NeZero n] (s : DCacheSystem c n) (a : DCacheCycle c)

/-- What the wrapper sees: of an answer, the tag and whether the request was a load. -/
def input : DCacheWrapperInput c n where
  reqValid := a.reqValid
  reqUop := a.reqUop
  kill := a.kill
  brinfo := a.brinfo
  flushPipe := a.flushPipe
  cacheReady := a.cacheReady
  cacheNack := a.cacheNack
  cacheResp := (a.answer.bind s.outstanding).map fun r => (r.tag, r.uop.isLoad)

/-- The request the cache accepts. -/
def accepted : Option (CacheReq c n) :=
  if a.reqValid && a.cacheReady then some ⟨s.wrapper.enqIdx, a.reqUop, false⟩ else none

/-- What is left of a request after a cycle. -/
def nextReq (t : ℕ) (r : CacheReq c n) : Option (CacheReq c n) :=
  if a.answer = some t then none
  else if t + 2 = s.now ∧ (a.cacheNack || r.killed) = true then none
  else if t + 1 = s.now then some { r with killed := s.wrapper.cacheKill (s.input a) }
  else some r

/-- The load the wrapper accepts. -/
def acceptedLoad : Option (LoadRecord c) :=
  if a.reqValid && a.reqUop.isLoad && s.wrapper.reqReady (s.input a) then
    some ⟨a.reqUop, a.reqUop.resolve a.brinfo,
      a.flushPipe || isKilledByBranch a.brinfo a.reqUop.brMask⟩
  else none

/-- What the core is told in this cycle about the load accepted in cycle `t`. -/
def told (t : ℕ) : List (LoadOutcome c) :=
  (if a.answer = some t then
    [if s.wrapper.respValid (s.input a) then .response (s.wrapper.respUop (s.input a))
      else .nothing]
  else []) ++
  if t + 2 = s.now ∧ s.wrapper.nackValid (s.input a) = true then
    [.nack s.wrapper.nackIsload s.wrapper.nackLsuIdx]
  else []

/-- One cycle. -/
def next : DCacheSystem c n where
  wrapper := s.wrapper.next (s.input a)
  now := s.now + 1
  outstanding t := if t = s.now then s.accepted a else (s.outstanding t).bind (s.nextReq a t)
  loads t :=
    if t = s.now then s.acceptedLoad a
    else if (s.outstanding t).isSome then (s.loads t).map fun l => l.next a
    else s.loads t
  outcomes t := if (s.loads t).isSome then s.outcomes t ++ s.told a t else []

/-- Reset. -/
structure IsReset (s : DCacheSystem c n) : Prop where
  wrapper : s.wrapper.IsReset
  now : s.now = 0
  outstanding : ∀ t, s.outstanding t = none
  loads : ∀ t, s.loads t = none
  outcomes : ∀ t, s.outcomes t = []

end DCacheSystem

/-- The promise of the cache: it refuses a request two cycles after it was accepted, or it answers
it then or later, and in either case only if it was not taken back. -/
structure DCacheCycle.Ok (s : DCacheSystem c n) (a : DCacheCycle c) : Prop where
  nack : a.cacheNack = true →
    ∃ t r, t + 2 = s.now ∧ s.outstanding t = some r ∧ r.killed = false
  answer : ∀ t, a.answer = some t → ∃ r, s.outstanding t = some r ∧ r.killed = false ∧
    t + 2 ≤ s.now ∧ (t + 2 = s.now → a.cacheNack = false)

/-- The runs of the wrapper in front of the cache. -/
def DCacheSystem.machine (c : BOOMConf) (n : ℕ) [NeZero n] :
    Machine (DCacheSystem c n) (DCacheCycle c) :=
  (Machine.clocked IsReset next).restrict fun s a => a.Ok s

namespace DCacheSystem

variable [NeZero n] {s : DCacheSystem c n} {a : DCacheCycle c} {t : ℕ}

/-- A load in flight holds tag `k`. -/
def InFlight (s : DCacheSystem c n) (t : ℕ) (k : Fin n) : Prop :=
  ∃ r, s.outstanding t = some r ∧ (s.loads t).isSome = true ∧ r.tag = k

/-- The requests of the last two cycles, as the registers of the wrapper know them. -/
structure Staged (s : DCacheSystem c n) : Prop where
  m1 : ∀ t r, s.outstanding t = some r → t + 1 = s.now →
    s.wrapper.m1InflightTag = r.tag ∧ s.wrapper.m1ReqUop = r.uop ∧
      s.wrapper.m1Enq = (s.loads t).isSome ∧
      s.wrapper.iflbKill = (r.uop.isLoad && !(s.loads t).isSome) ∧
      s.wrapper.m1Refused = false ∧ r.killed = false
  m2 : ∀ t r, s.outstanding t = some r → t + 2 = s.now →
    s.wrapper.m2InflightTag = r.tag ∧ s.wrapper.m2ReqUop = r.uop ∧
      s.wrapper.m2Enq = (s.loads t).isSome ∧
      r.killed = (s.wrapper.killReg || s.wrapper.iflbKillReg) ∧ s.wrapper.m2Refused = false
  enq : ∀ t, t + 1 = s.now → s.wrapper.m1Enq = true → ∃ r, s.outstanding t = some r
  killed : ∀ t r, s.outstanding t = some r → r.killed = true → t + 2 = s.now
  overflow : ∀ t r, s.outstanding t = some r → r.uop.isLoad = true → s.loads t = none →
    t + 1 = s.now ∨ r.killed = true
  early : ∀ t, (s.loads t).isSome = true → s.now ≤ t + 2 → (s.outstanding t).isSome = true
  past : ∀ t, s.now ≤ t → s.outstanding t = none ∧ s.loads t = none

/-- The slots hold the loads in flight. -/
structure InflightOk (s : DCacheSystem c n) : Prop where
  staged : s.Staged
  held : ∀ t r l, s.outstanding t = some r → s.loads t = some l → r.killed = false →
    s.wrapper.inflightLoadBuffer r.tag = ⟨true, l.squashed, l.current⟩
  owner : ∀ k, (s.wrapper.inflightLoadBuffer k).valid = true →
    ∃ t r, s.outstanding t = some r ∧ (s.loads t).isSome = true ∧ r.killed = false ∧ r.tag = k
  unique : ∀ t t' k, s.InFlight t k → s.InFlight t' k → t = t'
  record : ∀ t l, s.loads t = some l → l.uop.isLoad = true ∧ ∃ m, l.current = l.uop.withMask m
  uop : ∀ t r l, s.outstanding t = some r → s.loads t = some l → r.uop = l.uop

/-- What the core is told about each load: nothing yet, or one thing. -/
def ToldOnce (s : DCacheSystem c n) : Prop :=
  ∀ t l, s.loads t = some l →
    if (s.outstanding t).isSome then s.outcomes t = []
    else ∃ x, s.outcomes t = [x] ∧
      (∀ u, x = .response u → ∃ m, u = l.uop.withMask m) ∧
      (∀ b k, x = .nack b k → b = true ∧ k = l.uop.ldqIdx) ∧ (x = .nothing → l.squashed = true)

/-! ### One cycle of the cache -/

theorem outstanding_next_now : (s.next a).outstanding s.now = s.accepted a := if_pos rfl

theorem loads_next_now : (s.next a).loads s.now = s.acceptedLoad a := if_pos rfl

theorem outstanding_next_of_ne (ht : t ≠ s.now) :
    (s.next a).outstanding t = (s.outstanding t).bind (s.nextReq a t) := if_neg ht

theorem loads_next_of_ne (ht : t ≠ s.now) : (s.next a).loads t =
    if (s.outstanding t).isSome then (s.loads t).map fun l => l.next a else s.loads t := if_neg ht

theorem isSome_loads_next (ht : t ≠ s.now) :
    ((s.next a).loads t).isSome = (s.loads t).isSome := by
  rw [loads_next_of_ne ht]
  split
  · exact Option.isSome_map
  · rfl

omit [NeZero n] in
theorem of_nextReq {r r' : CacheReq c n} (h : s.nextReq a t r = some r') :
    a.answer ≠ some t ∧ ¬(t + 2 = s.now ∧ (a.cacheNack || r.killed) = true) ∧
      r' = { r with killed := if t + 1 = s.now then s.wrapper.cacheKill (s.input a)
        else r.killed } := by
  rw [nextReq] at h
  split at h
  · cases h
  case isFalse hanswer =>
    split at h
    · cases h
    case isFalse hleave =>
      refine ⟨hanswer, hleave, ?_⟩
      split at h
      case isTrue hm1 =>
        rw [if_pos hm1]
        exact (Option.some.inj h).symm
      case isFalse hm1 =>
        rw [if_neg hm1]
        exact (Option.some.inj h).symm

theorem of_accepted {r : CacheReq c n} (h : s.accepted a = some r) : a.reqValid = true ∧
    a.cacheReady = true ∧ r = ⟨s.wrapper.enqIdx, a.reqUop, false⟩ := by
  obtain ⟨hup, heq⟩ := Option.ite_none_right_eq_some.mp h
  obtain ⟨hreq, hready⟩ := Bool.and_eq_true_iff.mp hup
  exact ⟨hreq, hready, (Option.some.inj heq).symm⟩

/-- A request after a cycle is new, or it was there before. -/
theorem of_outstanding_next {r' : CacheReq c n} (h : (s.next a).outstanding t = some r') :
    t = s.now ∧ s.accepted a = some r' ∨
      t ≠ s.now ∧ ∃ r, s.outstanding t = some r ∧ s.nextReq a t r = some r' := by
  by_cases ht : t = s.now
  · subst ht
    rw [outstanding_next_now] at h
    exact .inl ⟨rfl, h⟩
  · rw [outstanding_next_of_ne ht] at h
    obtain ⟨r, hr, hnext⟩ := Option.bind_eq_some_iff.mp h
    exact .inr ⟨ht, r, hr, hnext⟩

omit [NeZero n] in
theorem acceptedLoad_eq : s.acceptedLoad a = if s.wrapper.enqCanOccur (s.input a) then
    some ⟨a.reqUop, a.reqUop.resolve a.brinfo,
      a.flushPipe || isKilledByBranch a.brinfo a.reqUop.brMask⟩
    else none := by
  rw [acceptedLoad, enqCanOccur_eq]
  rfl

omit [NeZero n] in
theorem isSome_acceptedLoad :
    (s.acceptedLoad a).isSome = s.wrapper.enqCanOccur (s.input a) := by
  rw [acceptedLoad_eq]
  cases s.wrapper.enqCanOccur (s.input a) <;> rfl

theorem accepted_of_enq (h : s.wrapper.enqCanOccur (s.input a) = true) :
    s.accepted a = some ⟨s.wrapper.enqIdx, a.reqUop, false⟩ := by
  obtain ⟨hreq, -, hready, -⟩ := free_of_enqCanOccur h
  have hreq : a.reqValid = true := hreq
  have hready : a.cacheReady = true := hready
  rw [accepted, hreq, hready]
  rfl

/-! ### The two stages in front of a refusal -/

namespace Staged

variable (hs : s.Staged)
include hs

omit [NeZero n] in
theorem lt_of_outstanding {r : CacheReq c n} (h : s.outstanding t = some r) : t < s.now := by
  by_contra hle
  rw [(hs.past t (not_lt.mp hle)).1] at h
  cases h

omit [NeZero n] in
theorem lt_of_loads (h : (s.loads t).isSome = true) : t < s.now := by
  by_contra hle
  rw [(hs.past t (not_lt.mp hle)).2] at h
  cases h

omit hs in
theorem m1_next (t : ℕ) (r : CacheReq c n) (h : (s.next a).outstanding t = some r)
    (ht : t + 1 = (s.next a).now) : (s.next a).wrapper.m1InflightTag = r.tag ∧
      (s.next a).wrapper.m1ReqUop = r.uop ∧
      (s.next a).wrapper.m1Enq = ((s.next a).loads t).isSome ∧
      (s.next a).wrapper.iflbKill = (r.uop.isLoad && !((s.next a).loads t).isSome) ∧
      (s.next a).wrapper.m1Refused = false ∧ r.killed = false := by
  obtain rfl : t = s.now := Nat.succ.inj ht
  rw [outstanding_next_now] at h
  obtain ⟨hreq, hready, rfl⟩ := of_accepted h
  rw [loads_next_now, isSome_acceptedLoad]
  refine ⟨rfl, rfl, rfl, ?_, ?_, rfl⟩
  · show (a.reqValid && a.reqUop.isLoad && !s.wrapper.enqRdy (s.input a)) =
      (a.reqUop.isLoad && !(a.reqValid && a.reqUop.isLoad && s.wrapper.enqRdy (s.input a)))
    rw [hreq, Bool.true_and]
    cases a.reqUop.isLoad <;> rfl
  · show (a.reqValid && !a.cacheReady) = false
    rw [hready, Bool.not_true, Bool.and_false]

theorem m2_next (t : ℕ) (r' : CacheReq c n) (h : (s.next a).outstanding t = some r')
    (ht : t + 2 = (s.next a).now) : (s.next a).wrapper.m2InflightTag = r'.tag ∧
      (s.next a).wrapper.m2ReqUop = r'.uop ∧
      (s.next a).wrapper.m2Enq = ((s.next a).loads t).isSome ∧
      r'.killed = ((s.next a).wrapper.killReg || (s.next a).wrapper.iflbKillReg) ∧
      (s.next a).wrapper.m2Refused = false := by
  have ht : t + 1 = s.now := Nat.succ.inj ht
  rcases of_outstanding_next h with ⟨rfl, -⟩ | ⟨hne, r, hr, hnext⟩
  · exact absurd ht (Nat.succ_ne_self s.now)
  · obtain ⟨-, -, rfl⟩ := of_nextReq hnext
    obtain ⟨htag, huop, henq, -, hrefused, -⟩ := hs.m1 t r hr ht
    rw [isSome_loads_next hne, if_pos ht]
    exact ⟨htag, huop, henq, rfl, hrefused⟩

omit hs in
theorem enq_next (t : ℕ) (ht : t + 1 = (s.next a).now) (henq : (s.next a).wrapper.m1Enq = true) :
    ∃ r, (s.next a).outstanding t = some r := by
  obtain rfl : t = s.now := Nat.succ.inj ht
  rw [outstanding_next_now]
  exact ⟨_, accepted_of_enq henq⟩

theorem killed_next (t : ℕ) (r' : CacheReq c n) (h : (s.next a).outstanding t = some r')
    (hkilled : r'.killed = true) : t + 2 = (s.next a).now := by
  rcases of_outstanding_next h with ⟨rfl, hacc⟩ | ⟨hne, r, hr, hnext⟩
  · obtain ⟨-, -, rfl⟩ := of_accepted hacc
    cases hkilled
  · obtain ⟨-, hstays, rfl⟩ := of_nextReq hnext
    by_cases hm1 : t + 1 = s.now
    · exact congrArg (· + 1) hm1
    · have hold : r.killed = true := by rwa [if_neg hm1] at hkilled
      exact absurd ⟨hs.killed t r hr hold, by rw [hold, Bool.or_true]⟩ hstays

theorem overflow_next (t : ℕ) (r' : CacheReq c n) (h : (s.next a).outstanding t = some r')
    (hload : r'.uop.isLoad = true) (hnone : (s.next a).loads t = none) :
    t + 1 = (s.next a).now ∨ r'.killed = true := by
  rcases of_outstanding_next h with ⟨rfl, -⟩ | ⟨hne, r, hr, hnext⟩
  · exact .inl rfl
  · right
    obtain ⟨-, hstays, rfl⟩ := of_nextReq hnext
    have hnone : s.loads t = none := by
      rw [← Option.not_isSome_iff_eq_none, ← isSome_loads_next (a := a) hne, hnone]
      exact Bool.false_ne_true
    have hload : r.uop.isLoad = true := hload
    rcases hs.overflow t r hr hload hnone with hm1 | hold
    · obtain ⟨-, -, -, hfull, -, -⟩ := hs.m1 t r hr hm1
      rw [if_pos hm1, cacheKill, hfull, hload, hnone]
      exact Bool.or_true _
    · exact absurd ⟨hs.killed t r hr hold, by rw [hold, Bool.or_true]⟩ hstays

theorem early_next (hok : a.Ok s) (t : ℕ) (h : ((s.next a).loads t).isSome = true)
    (ht : (s.next a).now ≤ t + 2) : ((s.next a).outstanding t).isSome = true := by
  by_cases hne : t = s.now
  · subst hne
    rw [loads_next_now, isSome_acceptedLoad] at h
    rw [outstanding_next_now, accepted_of_enq h]
    rfl
  · rw [isSome_loads_next hne] at h
    have hlt := hs.lt_of_loads h
    have hm1 : t + 1 = s.now := by
      have ht : s.now + 1 ≤ t + 2 := ht
      omega
    obtain ⟨r, hr⟩ := Option.isSome_iff_exists.mp (hs.early t h (by omega))
    have hanswer : a.answer ≠ some t := by
      intro hanswer
      obtain ⟨-, -, -, hle, -⟩ := hok.answer t hanswer
      omega
    rw [outstanding_next_of_ne hne, hr, Option.bind_some, nextReq, if_neg hanswer,
      if_neg fun h => by omega, if_pos hm1]
    rfl

theorem past_next (t : ℕ) (ht : (s.next a).now ≤ t) :
    (s.next a).outstanding t = none ∧ (s.next a).loads t = none := by
  have hlt : s.now < t := ht
  obtain ⟨hout, hload⟩ := hs.past t hlt.le
  rw [outstanding_next_of_ne hlt.ne', loads_next_of_ne hlt.ne', hout]
  exact ⟨rfl, hload⟩

theorem next (hok : a.Ok s) : (s.next a).Staged where
  m1 := m1_next
  m2 := hs.m2_next
  enq := enq_next
  killed := hs.killed_next
  overflow := hs.overflow_next
  early := hs.early_next hok
  past := hs.past_next

end Staged

/-! ### The slots -/

/-- A slot after a cycle was written, or it kept its load. -/
theorem of_valid_next {k : Fin n}
    (h : ((s.next a).wrapper.inflightLoadBuffer k).valid = true) :
    s.wrapper.enqCanOccur (s.input a) = true ∧ s.wrapper.enqIdx = k ∨
      (s.wrapper.inflightLoadBuffer k).valid = true ∧
        s.wrapper.clear (s.input a) k = false := by
  by_cases hwen : s.wrapper.enqCanOccur (s.input a) = true ∧ s.wrapper.enqIdx = k
  · exact .inl hwen
  · right
    have hclear : s.wrapper.clear (s.input a) k = false ∨
        (s.wrapper.inflightLoadBuffer k).valid = false := by
      by_contra hboth
      rw [not_or, Bool.not_eq_false, Bool.not_eq_false] at hboth
      have hfree : ((s.next a).wrapper.inflightLoadBuffer k).valid = false :=
        valid_next_of_clear hboth.2 hboth.1
      rw [hfree] at h
      cases h
    rcases hclear with hclear | hfree
    · have hnext : (s.next a).wrapper.inflightLoadBuffer k = _ :=
        next_of_keep hwen hclear
      rw [hnext] at h
      exact ⟨h, hclear⟩
    · exfalso
      have hno : (s.wrapper.enqCanOccur (s.input a) && decide (s.wrapper.enqIdx = k)) = false := by
        rw [← Bool.not_eq_true, Bool.and_eq_true, decide_eq_true_eq]
        exact hwen
      have hnext : ((s.next a).wrapper.inflightLoadBuffer k).valid = false := by
        show ((s.wrapper.inflightLoadBuffer k).next (s.wrapper.slotInput (s.input a) k)).valid = _
        simp [LoadReqSlot.next, slotInput, hno, hfree]
      rw [hnext] at h
      cases h

namespace InflightOk

variable (hi : s.InflightOk)
include hi

omit [NeZero n] in
/-- An answer to a load carries the tag of a load in flight. -/
theorem inFlight_of_answer (hok : a.Ok s) {k : Fin n}
    (h : loadAck (s.input a) = some k) :
    ∃ t, a.answer = some t ∧ s.InFlight t k := by
  obtain ⟨x, hx, rfl⟩ := Option.map_eq_some_iff.mp h
  obtain ⟨hresp, hload⟩ := Option.filter_eq_some_iff.mp hx
  obtain ⟨r, hr, rfl⟩ := Option.map_eq_some_iff.mp hresp
  obtain ⟨t, hanswer, hr⟩ := Option.bind_eq_some_iff.mp hr
  obtain ⟨r', hr', hkilled, hle, -⟩ := hok.answer t hanswer
  obtain rfl : r' = r := Option.some.inj (hr'.symm.trans hr)
  refine ⟨t, hanswer, r', hr, ?_, rfl⟩
  rw [Option.isSome_iff_ne_none]
  intro hnone
  rcases hi.staged.overflow t r' hr hload hnone with hm1 | hkilled'
  · omega
  · rw [hkilled] at hkilled'
    cases hkilled'

omit [NeZero n] in
/-- **When the slot of a load in flight is cleared**: it is answered, refused or taken back. -/
theorem clear_iff (hok : a.Ok s) {r : CacheReq c n} (hr : s.outstanding t = some r)
    (hl : (s.loads t).isSome = true) :
    s.wrapper.clear (s.input a) r.tag = true ↔ a.answer = some t ∨
      t + 2 = s.now ∧ a.cacheNack = true ∨ t + 1 = s.now ∧ a.kill = true := by
  have hflight : s.InFlight t r.tag := ⟨r, hr, hl, rfl⟩
  obtain ⟨l, hl'⟩ := Option.isSome_iff_exists.mp hl
  have hload : r.uop.isLoad = true := by
    rw [hi.uop t r l hr hl']
    exact (hi.record t l hl').1
  have hlt := hi.staged.lt_of_outstanding hr
  rw [clear, Bool.or_eq_true, Bool.or_eq_true, decide_eq_true_eq]
  constructor
  · rintro ((hack | hnack) | hkill)
    · obtain ⟨t', hanswer, hflight'⟩ := hi.inFlight_of_answer hok hack
      rw [hi.unique t t' r.tag hflight hflight']
      exact .inl hanswer
    · simp only [Bool.and_eq_true, decide_eq_true_eq] at hnack
      obtain ⟨⟨⟨hnack, -⟩, htag⟩, henq⟩ := hnack
      obtain ⟨t', r', ht', hr', -⟩ := hok.nack hnack
      obtain ⟨htag', -, henq', -, -⟩ := hi.staged.m2 t' r' hr' ht'
      have hflight' : s.InFlight t' r.tag := ⟨r', hr', henq'.symm.trans henq, htag'.symm.trans htag⟩
      rw [hi.unique t t' r.tag hflight hflight']
      exact .inr (.inl ⟨ht', hnack⟩)
    · simp only [Bool.and_eq_true, decide_eq_true_eq] at hkill
      obtain ⟨⟨hkill, htag⟩, henq⟩ := hkill
      have ht' : s.now - 1 + 1 = s.now := by omega
      obtain ⟨r', hr'⟩ := hi.staged.enq (s.now - 1) ht' henq
      obtain ⟨htag', -, henq', -, -, -⟩ := hi.staged.m1 (s.now - 1) r' hr' ht'
      have hflight' : s.InFlight (s.now - 1) r.tag :=
        ⟨r', hr', henq'.symm.trans henq, htag'.symm.trans htag⟩
      rw [hi.unique t _ r.tag hflight hflight']
      exact .inr (.inr ⟨ht', hkill⟩)
  · rintro (hanswer | ⟨ht, hnack⟩ | ⟨ht, hkill⟩)
    · refine .inl (.inl ?_)
      simp [loadAck, input, hanswer, hr, hload]
    · obtain ⟨htag, huop, henq, -, -⟩ := hi.staged.m2 t r hr ht
      refine .inl (.inr ?_)
      simp [input, hnack, huop, hload, htag, henq, hl]
    · obtain ⟨htag, -, henq, -, -, -⟩ := hi.staged.m1 t r hr ht
      refine .inr ?_
      simp [input, hkill, htag, henq, hl]

omit [NeZero n] in
/-- A load in flight keeps its slot as long as it stays in flight, unless it is taken back. -/
theorem clear_of_stays (hok : a.Ok s) {r r' : CacheReq c n} (hr : s.outstanding t = some r)
    (hl : (s.loads t).isSome = true) (hnext : s.nextReq a t r = some r') :
    r.killed = false ∧ s.wrapper.clear (s.input a) r.tag = r'.killed := by
  obtain ⟨hanswer, hstays, rfl⟩ := of_nextReq hnext
  have hkilled : r.killed = false := by
    rw [← Bool.not_eq_true]
    intro hkilled
    exact hstays ⟨hi.staged.killed t r hr hkilled, by rw [hkilled, Bool.or_true]⟩
  refine ⟨hkilled, ?_⟩
  rw [Bool.eq_iff_iff, hi.clear_iff hok hr hl, or_iff_right hanswer]
  have hnack : ¬(t + 2 = s.now ∧ a.cacheNack = true) := by
    rintro ⟨ht, hnack⟩
    exact hstays ⟨ht, by rw [hnack, Bool.true_or]⟩
  rw [or_iff_right hnack]
  by_cases hm1 : t + 1 = s.now
  · obtain ⟨-, -, -, hfull, -, -⟩ := hi.staged.m1 t r hr hm1
    rw [if_pos hm1, cacheKill, hfull, hl, Bool.not_true, Bool.and_false,
      Bool.or_false, and_iff_right hm1]
    rfl
  · rw [if_neg hm1, hkilled]
    exact iff_of_false (fun h => hm1 h.1) Bool.false_ne_true

theorem not_enq {r : CacheReq c n} (hr : s.outstanding t = some r)
    (hl : (s.loads t).isSome = true) (hkilled : r.killed = false) :
    ¬(s.wrapper.enqCanOccur (s.input a) = true ∧ s.wrapper.enqIdx = r.tag) := by
  rintro ⟨henq, hidx⟩
  obtain ⟨l, hl⟩ := Option.isSome_iff_exists.mp hl
  have hfree := (free_of_enqCanOccur henq).2.2.2
  rw [hidx, hi.held t r l hr hl hkilled] at hfree
  cases hfree

/-! ### One cycle -/

theorem held_next (hok : a.Ok s) (t : ℕ) (r' : CacheReq c n) (l' : LoadRecord c)
    (hr' : (s.next a).outstanding t = some r') (hl' : (s.next a).loads t = some l')
    (hkilled : r'.killed = false) :
    (s.next a).wrapper.inflightLoadBuffer r'.tag = ⟨true, l'.squashed, l'.current⟩ := by
  rcases of_outstanding_next hr' with ⟨rfl, hacc⟩ | ⟨hne, r, hr, hnext⟩
  · obtain ⟨-, -, rfl⟩ := of_accepted hacc
    rw [loads_next_now] at hl'
    have henq : s.wrapper.enqCanOccur (s.input a) = true := by
      rw [← isSome_acceptedLoad, hl']
      rfl
    rw [acceptedLoad_eq, if_pos henq] at hl'
    cases hl'
    exact next_of_enq henq rfl
  · have hsome : (s.loads t).isSome = true := by
      rw [← isSome_loads_next (a := a) hne, hl']
      rfl
    obtain ⟨hold, hclear⟩ := hi.clear_of_stays hok hr hsome hnext
    have hnowen := hi.not_enq (a := a) hr hsome hold
    obtain ⟨l, hl⟩ := Option.isSome_iff_exists.mp hsome
    obtain ⟨-, -, rfl⟩ := of_nextReq hnext
    rw [loads_next_of_ne hne, hr, hl, Option.isSome_some, if_pos rfl, Option.map_some] at hl'
    cases hl'
    have hslot := hi.held t r l hr hl hold
    have hkeep : (s.next a).wrapper.inflightLoadBuffer r.tag = _ :=
      next_of_keep hnowen (hclear.trans hkilled)
    rw [hkeep, hslot]
    rfl

theorem owner_next (hok : a.Ok s) (k : Fin n)
    (hk : ((s.next a).wrapper.inflightLoadBuffer k).valid = true) :
    ∃ t r, (s.next a).outstanding t = some r ∧ ((s.next a).loads t).isSome = true ∧
      r.killed = false ∧ r.tag = k := by
  rcases of_valid_next hk with ⟨henq, rfl⟩ | ⟨hvalid, hclear⟩
  · refine ⟨s.now, _, outstanding_next_now.trans (accepted_of_enq henq), ?_, rfl, rfl⟩
    rw [loads_next_now, isSome_acceptedLoad, henq]
  · obtain ⟨t, r, hr, hl, hkilled, rfl⟩ := hi.owner k hvalid
    have hne : t ≠ s.now := (hi.staged.lt_of_outstanding hr).ne
    rw [← Bool.not_eq_true, hi.clear_iff hok hr hl, not_or, not_or] at hclear
    obtain ⟨hanswer, hnack, hkill⟩ := hclear
    have hstays : ¬(t + 2 = s.now ∧ (a.cacheNack || r.killed) = true) := by
      rintro ⟨ht, hup⟩
      rw [hkilled, Bool.or_false] at hup
      exact hnack ⟨ht, hup⟩
    by_cases hm1 : t + 1 = s.now
    · obtain ⟨-, -, -, hfull, -, -⟩ := hi.staged.m1 t r hr hm1
      have hnokill : s.wrapper.cacheKill (s.input a) = false := by
        rw [cacheKill, hfull, hl, Bool.not_true, Bool.and_false, Bool.or_false,
          ← Bool.not_eq_true]
        exact fun h => hkill ⟨hm1, h⟩
      refine ⟨t, { r with killed := s.wrapper.cacheKill (s.input a) }, ?_, ?_, hnokill, rfl⟩
      · rw [outstanding_next_of_ne hne, hr, Option.bind_some, nextReq, if_neg hanswer,
          if_neg hstays, if_pos hm1]
      · rwa [isSome_loads_next hne]
    · refine ⟨t, r, ?_, ?_, hkilled, rfl⟩
      · rw [outstanding_next_of_ne hne, hr, Option.bind_some, nextReq, if_neg hanswer,
          if_neg hstays, if_neg hm1]
      · rwa [isSome_loads_next hne]

/-- A load in flight is new, or it was in flight and is not taken back yet. -/
theorem of_inFlight_next {k : Fin n} (h : (s.next a).InFlight t k) :
    t = s.now ∧ k = s.wrapper.enqIdx ∧ s.wrapper.enqCanOccur (s.input a) = true ∨
      s.InFlight t k ∧ (s.wrapper.inflightLoadBuffer k).valid = true := by
  obtain ⟨r', hr', hl', rfl⟩ := h
  rcases of_outstanding_next hr' with ⟨rfl, hacc⟩ | ⟨hne, r, hr, hnext⟩
  · obtain ⟨-, -, rfl⟩ := of_accepted hacc
    rw [loads_next_now, isSome_acceptedLoad] at hl'
    exact .inl ⟨rfl, rfl, hl'⟩
  · rw [isSome_loads_next hne] at hl'
    obtain ⟨l, hl⟩ := Option.isSome_iff_exists.mp hl'
    obtain ⟨-, hstays, rfl⟩ := of_nextReq hnext
    have hold : r.killed = false := by
      rw [← Bool.not_eq_true]
      intro hkilled
      exact hstays ⟨hi.staged.killed t r hr hkilled, by rw [hkilled, Bool.or_true]⟩
    refine .inr ⟨⟨r, hr, hl', rfl⟩, ?_⟩
    show (s.wrapper.inflightLoadBuffer r.tag).valid = true
    rw [hi.held t r l hr hl hold]

theorem unique_next (t t' : ℕ) (k : Fin n) (h : (s.next a).InFlight t k)
    (h' : (s.next a).InFlight t' k) : t = t' := by
  rcases hi.of_inFlight_next h with ⟨rfl, rfl, henq⟩ | ⟨hold, hvalid⟩ <;>
    rcases hi.of_inFlight_next h' with ⟨rfl, hk, henq'⟩ | ⟨hold', hvalid'⟩
  · rfl
  · rw [(free_of_enqCanOccur henq).2.2.2] at hvalid'
    cases hvalid'
  · rw [hk, (free_of_enqCanOccur henq').2.2.2] at hvalid
    cases hvalid
  · exact hi.unique t t' k hold hold'

theorem record_next (t : ℕ) (l' : LoadRecord c) (h : (s.next a).loads t = some l') :
    l'.uop.isLoad = true ∧ ∃ m, l'.current = l'.uop.withMask m := by
  by_cases hne : t = s.now
  · subst hne
    rw [loads_next_now, acceptedLoad_eq] at h
    obtain ⟨henq, heq⟩ := Option.ite_none_right_eq_some.mp h
    cases heq
    exact ⟨(free_of_enqCanOccur henq).2.1, _, rfl⟩
  · rw [loads_next_of_ne hne] at h
    split at h
    · obtain ⟨l, hl, rfl⟩ := Option.map_eq_some_iff.mp h
      obtain ⟨hload, m, hm⟩ := hi.record t l hl
      refine ⟨hload, getNewBrMask a.brinfo l.current.brMask, ?_⟩
      show l.current.withMask _ = l.uop.withMask _
      rw [hm]
      rfl
    · exact hi.record t l' h

theorem uop_next (t : ℕ) (r' : CacheReq c n) (l' : LoadRecord c)
    (hr' : (s.next a).outstanding t = some r') (hl' : (s.next a).loads t = some l') :
    r'.uop = l'.uop := by
  rcases of_outstanding_next hr' with ⟨rfl, hacc⟩ | ⟨hne, r, hr, hnext⟩
  · obtain ⟨-, -, rfl⟩ := of_accepted hacc
    rw [loads_next_now, acceptedLoad_eq] at hl'
    obtain ⟨-, heq⟩ := Option.ite_none_right_eq_some.mp hl'
    cases heq
    rfl
  · obtain ⟨-, -, rfl⟩ := of_nextReq hnext
    rw [loads_next_of_ne hne, hr, Option.isSome_some, if_pos rfl] at hl'
    obtain ⟨l, hl, rfl⟩ := Option.map_eq_some_iff.mp hl'
    exact hi.uop t r l hr hl

/-- **One cycle keeps the slots in step with the loads in flight.** -/
theorem next (hok : a.Ok s) : (s.next a).InflightOk where
  staged := hi.staged.next hok
  held := hi.held_next hok
  owner := hi.owner_next hok
  unique := hi.unique_next
  record := hi.record_next
  uop := hi.uop_next

/-! ### What the core is told -/

omit [NeZero n] in
/-- The answer to a load shows its micro-op, unless it was killed. -/
theorem resp_of_answer (hok : a.Ok s) (hanswer : a.answer = some t) {l : LoadRecord c}
    (hl : s.loads t = some l) :
    s.wrapper.respValid (s.input a) = !(l.squashed || isKilledByBranch a.brinfo l.current.brMask) ∧
      s.wrapper.respUop (s.input a) = l.current := by
  obtain ⟨r, hr, hkilled, -, -⟩ := hok.answer t hanswer
  have hload : r.uop.isLoad = true := by
    rw [hi.uop t r l hr hl]
    exact (hi.record t l hl).1
  have hack : loadAck (s.input a) = some r.tag := by
    simp [loadAck, input, hanswer, hr, hload]
  rw [respValid, respUop, hack]
  dsimp only
  rw [hi.held t r l hr hl hkilled]
  exact ⟨rfl, rfl⟩

omit [NeZero n] in
/-- A load is refused in the second cycle, or it was taken back in the first. -/
theorem nackValid_eq {r : CacheReq c n} (hr : s.outstanding t = some r) (ht : t + 2 = s.now) :
    s.wrapper.nackValid (s.input a) = (a.cacheNack || r.killed) := by
  obtain ⟨-, -, -, hkilled, hrefused⟩ := hi.staged.m2 t r hr ht
  rw [nackValid, hrefused, Bool.or_false, hkilled, Bool.or_assoc]
  rfl

omit [NeZero n] in
/-- Of a load that is not in flight the core is told nothing more. -/
theorem told_of_done (hok : a.Ok s) (hl : (s.loads t).isSome = true)
    (hdone : s.outstanding t = none) : s.told a t = [] := by
  have hanswer : a.answer ≠ some t := by
    intro hanswer
    obtain ⟨r, hr, -⟩ := hok.answer t hanswer
    rw [hdone] at hr
    cases hr
  have hlate : ¬(t + 2 = s.now ∧ s.wrapper.nackValid (s.input a) = true) := by
    rintro ⟨ht, -⟩
    have hearly := hi.staged.early t hl ht.ge
    rw [hdone] at hearly
    cases hearly
  rw [told, if_neg hanswer, if_neg hlate]
  rfl

omit [NeZero n] in
/-- **A load in flight stays in flight and the core is told nothing, or it is told one thing and the
load has left.** -/
theorem told_or_stays (hok : a.Ok s) {r : CacheReq c n} {l : LoadRecord c}
    (hr : s.outstanding t = some r) (hl : s.loads t = some l) :
    (s.nextReq a t r).isSome = true ∧ s.told a t = [] ∨
      s.nextReq a t r = none ∧ ∃ x, s.told a t = [x] ∧
        (∀ u, x = .response u → u = l.current ∧ l.squashed = false) ∧
        (∀ b k, x = .nack b k → b = true ∧ k = l.uop.ldqIdx) ∧
        (x = .nothing → (l.next a).squashed = true) := by
  by_cases hanswer : a.answer = some t
  · right
    obtain ⟨r', hr', hkilled, -, hnonack⟩ := hok.answer t hanswer
    obtain rfl : r' = r := Option.some.inj (hr'.symm.trans hr)
    obtain ⟨hvalid, huop⟩ := hi.resp_of_answer hok hanswer hl
    have hquiet : ¬(t + 2 = s.now ∧ s.wrapper.nackValid (s.input a) = true) := by
      rintro ⟨ht, hup⟩
      rw [hi.nackValid_eq hr ht, hnonack ht, hkilled] at hup
      cases hup
    refine ⟨if_pos hanswer, _, by rw [told, if_pos hanswer, if_neg hquiet]; rfl, ?_, ?_, ?_⟩
    · intro u hu
      split at hu
      case isTrue hup =>
        cases hu
        rw [hvalid, Bool.not_eq_true', Bool.or_eq_false_iff] at hup
        exact ⟨huop, hup.1⟩
      case isFalse => cases hu
    · intro b k hx
      split at hx <;> cases hx
    · intro hnothing
      split at hnothing
      case isTrue => cases hnothing
      case isFalse hdown =>
        rw [hvalid, Bool.not_eq_true', Bool.not_eq_false, Bool.or_eq_true] at hdown
        show (l.squashed || a.flushPipe || isKilledByBranch a.brinfo l.current.brMask) = true
        rcases hdown with h | h <;> simp [h]
  · by_cases hleave : t + 2 = s.now ∧ (a.cacheNack || r.killed) = true
    · right
      have hnack := (hi.nackValid_eq (a := a) hr hleave.1).trans hleave.2
      obtain ⟨-, huop, -, -, -⟩ := hi.staged.m2 t r hr hleave.1
      have huop : s.wrapper.m2ReqUop = l.uop := huop.trans (hi.uop t r l hr hl)
      have hload := (hi.record t l hl).1
      refine ⟨by rw [nextReq, if_neg hanswer, if_pos hleave],
        .nack s.wrapper.nackIsload s.wrapper.nackLsuIdx, ?_, ?_, ?_, ?_⟩
      · rw [told, if_neg hanswer, if_pos ⟨hleave.1, hnack⟩]
        rfl
      · intro u hu
        cases hu
      · intro b k hx
        cases hx
        rw [nackIsload, nackLsuIdx, huop, hload]
        exact ⟨rfl, rfl⟩
      · intro hx
        cases hx
    · left
      constructor
      · rw [nextReq, if_neg hanswer, if_neg hleave]
        split <;> rfl
      · have hquiet : ¬(t + 2 = s.now ∧ s.wrapper.nackValid (s.input a) = true) := by
          rintro ⟨ht, hup⟩
          exact hleave ⟨ht, (hi.nackValid_eq hr ht).symm.trans hup⟩
        rw [told, if_neg hanswer, if_neg hquiet]
        rfl

end InflightOk

theorem ToldOnce.next (ht : s.ToldOnce) (hi : s.InflightOk) (hok : a.Ok s) :
    (s.next a).ToldOnce := by
  intro t l' hl'
  have houtcomes : (s.next a).outcomes t =
      if (s.loads t).isSome then s.outcomes t ++ s.told a t else [] := rfl
  by_cases hne : t = s.now
  · subst hne
    have hnone := (hi.staged.past s.now le_rfl).2
    have henq : s.wrapper.enqCanOccur (s.input a) = true := by
      rw [← isSome_acceptedLoad, ← loads_next_now, hl']
      rfl
    rw [outstanding_next_now, accepted_of_enq henq, houtcomes, hnone]
    rfl
  · have hsome : (s.loads t).isSome = true := by
      rw [← isSome_loads_next (a := a) hne, hl']
      rfl
    obtain ⟨l, hl⟩ := Option.isSome_iff_exists.mp hsome
    have hold := ht t l hl
    rw [houtcomes, if_pos hsome, outstanding_next_of_ne hne]
    rw [loads_next_of_ne hne] at hl'
    cases hr : s.outstanding t with
    | none =>
      rw [hr] at hold hl'
      rw [hi.told_of_done hok hsome hr, List.append_nil, Option.bind_none]
      rw [hl] at hl'
      cases hl'
      exact hold
    | some r =>
      rw [hr, Option.isSome_some, if_pos rfl] at hold hl'
      rw [hl, Option.map_some] at hl'
      cases hl'
      rw [hold, List.nil_append, Option.bind_some]
      rcases hi.told_or_stays hok hr hl with ⟨hstays, htold⟩ | ⟨hleft, x, htold, hresp, hrest⟩
      · rw [if_pos hstays]
        exact htold
      · rw [hleft]
        refine ⟨x, htold, ?_, hrest⟩
        intro u hu
        obtain ⟨-, m, hm⟩ := hi.record t l hl
        exact ⟨m, (hresp u hu).1.trans hm⟩

/-! ### Runs -/

theorem reachable_inflightOk (hs : (machine c n).Reachable s) : s.InflightOk ∧ s.ToldOnce := by
  refine Machine.invariant (I := fun s => s.InflightOk ∧ s.ToldOnce) ?_ ?_ s hs
  · intro s hreset
    have hout := hreset.outstanding
    have hload := hreset.loads
    refine ⟨⟨⟨?_, ?_, ?_, ?_, ?_, ?_, ?_⟩, ?_, ?_, ?_, ?_, ?_⟩, ?_⟩
    all_goals simp [hout, hload, hreset.now, InFlight, hreset.wrapper _, ToldOnce]
  · rintro s a _ - ⟨hi, ht⟩ ⟨hok, rfl⟩
    exact ⟨hi.next hok, ht.next hi hok⟩

/-- What the core was told about a load that has left is not added to. -/
theorem outcomes_of_done {st : ℕ → DCacheSystem c n} {lab : ℕ → DCacheCycle c}
    (hrun : (machine c n).Run st lab) {T : ℕ} (hload : ((st T).loads t).isSome = true)
    (hdone : (st T).outstanding t = none) (T' : ℕ) (hT : T ≤ T') :
    ((st T').loads t).isSome = true ∧ (st T').outstanding t = none ∧
      (st T').outcomes t = (st T).outcomes t := by
  induction T', hT using Nat.le_induction with
  | base => exact ⟨hload, hdone, rfl⟩
  | succ T' _ ih =>
    obtain ⟨hload', hdone', hsame⟩ := ih
    obtain ⟨hok, hnext⟩ := hrun.step T'
    have hi := (reachable_inflightOk (hrun.reachable T')).1
    have hne : t ≠ (st T').now := (hi.staged.lt_of_loads hload').ne
    rw [hnext]
    refine ⟨by rwa [isSome_loads_next hne], ?_, ?_⟩
    · rw [outstanding_next_of_ne hne, hdone', Option.bind_none]
    · have houtcomes : ((st T').next (lab T')).outcomes t = if ((st T').loads t).isSome then
          (st T').outcomes t ++ (st T').told (lab T') t else [] := rfl
      rw [houtcomes, if_pos hload', hi.told_of_done hok hload' hdone', List.append_nil, hsame]

/-- The cache keeps no request forever. -/
def Answers (st : ℕ → DCacheSystem c n) : Prop :=
  ∀ t T, ∃ T', T ≤ T' ∧ (st T').outstanding t = none

theorem loads_mono {st : ℕ → DCacheSystem c n} {lab : ℕ → DCacheCycle c}
    (hrun : (machine c n).Run st lab) {T : ℕ} (hload : ((st T).loads t).isSome = true) (T' : ℕ)
    (hT : T ≤ T') : ((st T').loads t).isSome = true := by
  induction T', hT using Nat.le_induction with
  | base => exact hload
  | succ T' _ ih =>
    have hi := (reachable_inflightOk (hrun.reachable T')).1
    rw [(hrun.step T').2, isSome_loads_next (hi.staged.lt_of_loads ih).ne]
    exact ih

/-- **Each load is answered once, or it is killed.** No two loads in flight have the same tag, and
the number of a slot is the tag of at most one of them. As long as a load is in flight the core is
told nothing about it; once it has left, the core was told exactly one thing: a response with its
own micro-op, a nack with its own index, or, only if it was killed, nothing. A response with the
micro-op of a load is the answer to that load, which was not killed before. And if the cache keeps
no request forever, every load leaves. -/
theorem load_answered_once (c : BOOMConf) (n : ℕ) :
    (∀ s, (machine c (n + 1)).Reachable s →
      (∀ t t' k, s.InFlight t k → s.InFlight t' k → t = t') ∧
      (∀ k, (s.wrapper.inflightLoadBuffer k).valid = true → ∃ t, s.InFlight t k) ∧
      ∀ t l, s.loads t = some l →
        (s.outstanding t ≠ none → s.outcomes t = []) ∧
        (s.outstanding t = none → ∃ x, s.outcomes t = [x] ∧
          (∀ u, x = .response u → ∃ m, u = l.uop.withMask m) ∧
          (∀ b k, x = .nack b k → b = true ∧ k = l.uop.ldqIdx) ∧
          (x = .nothing → l.squashed = true))) ∧
    (∀ s (a : DCacheCycle c), (machine c (n + 1)).Reachable s → a.Ok s →
      s.wrapper.respValid (s.input a) = true → (s.wrapper.respUop (s.input a)).isLoad = true →
      ∃ t l, a.answer = some t ∧ s.loads t = some l ∧
        s.wrapper.respUop (s.input a) = l.current ∧ l.squashed = false) ∧
    ∀ st lab, (machine c (n + 1)).Run st lab → Answers st → ∀ t T, (st T).loads t ≠ none →
      ∃ T₁ x, ∀ T', T₁ ≤ T' → (st T').outcomes t = [x] := by
  refine ⟨?_, ?_, ?_⟩
  · intro s hs
    obtain ⟨hi, ht⟩ := reachable_inflightOk hs
    refine ⟨hi.unique, ?_, ?_⟩
    · intro k hk
      obtain ⟨t, r, hr, hl, -, htag⟩ := hi.owner k hk
      exact ⟨t, r, hr, hl, htag⟩
    · intro t l hl
      have htold := ht t l hl
      constructor
      · intro hne
        rwa [if_pos (Option.isSome_iff_ne_none.mpr hne)] at htold
      · intro hnone
        rw [hnone] at htold
        exact htold
  · intro s a hs hok hvalid hload
    obtain ⟨hi, -⟩ := reachable_inflightOk hs
    cases hack : loadAck (s.input a) with
    | none =>
      rw [respValid, hack] at hvalid
      rw [respUop, hack] at hload
      have hstore := (Bool.and_eq_true_iff.mp (Bool.and_eq_true_iff.mp hvalid).1).1
      rw [hload] at hstore
      cases hstore
    | some k =>
      obtain ⟨t, hanswer, r, hr, hl, -⟩ := hi.inFlight_of_answer hok hack
      obtain ⟨l, hl⟩ := Option.isSome_iff_exists.mp hl
      obtain ⟨hup, huop⟩ := hi.resp_of_answer hok hanswer hl
      rw [hup, Bool.not_eq_true', Bool.or_eq_false_iff] at hvalid
      exact ⟨t, l, hanswer, hl, huop, hvalid.1⟩
  · intro st lab hrun hanswers t T hload
    obtain ⟨T₁, hle, hdone⟩ := hanswers t T
    have hload := loads_mono hrun (Option.isSome_iff_ne_none.mpr hload) T₁ hle
    obtain ⟨l, hl⟩ := Option.isSome_iff_exists.mp hload
    have htold := (reachable_inflightOk (hrun.reachable T₁)).2 t l hl
    rw [hdone] at htold
    obtain ⟨x, hx, -⟩ := htold
    refine ⟨T₁, x, ?_⟩
    intro T' hT
    rw [(outcomes_of_done hrun hload hdone T' hT).2.2, hx]

end DCacheSystem

end RiscvSoc
