import Mathlib.Data.Fin.Basic
import Mathlib.Data.Fintype.Basic
import Mathlib.Data.Fintype.Pi
import Mathlib.Logic.Function.Basic
import RiscvSoc.Lib.Bits
import RiscvSoc.Lib.Encoder
import RiscvSoc.Lib.Machine
import RiscvSoc.Uncore.Coherence

/-!
# The L2 coherence agent and its clients

`L2CoherenceAgent`, `AcquireTracker` and `VoluntaryReleaseTracker` from
`uncore/src/main/scala/uncore.scala`, together with `nClients` clients that follow the policy, as
one message-passing system. A step is one handshake: the clock is gone, since handshakes of the
same cycle commute or are excluded by the states they need.

## Where the messages are

Everything a tracker exchanges is kept next to it in `TrackerLink`: probes on their way to each
client, the releases that answer them, the grant, the finishes. An acquire in flight sits in
`acquires`, under its client and transaction id; the client's own record of it is `outstanding`.

## What is deliberately left out

Data, the memory behind the agent (a read that was sent is `outerPending` until it is answered)
and the fields nobody looks at. A client writes its metadata in the same step in which it answers
a probe. Only voluntary releases reach a `VoluntaryReleaseTracker`, and only the one with id `0`,
so there is one.

## What the environment promises

A client whose `incoherent` flag is up when an acquire is accepted holds no copy of the line.
-/

namespace RiscvSoc

open Bits Function

/-! ### Messages and registers -/

structure Acquire (P : CoherencePolicy) where
  aType : P.AcquireType
  addr : ℕ
  clientXactId : ℕ

structure Probe (P : CoherencePolicy) where
  pType : P.ProbeType
  addr : ℕ

structure Release (P : CoherencePolicy) where
  rType : P.ReleaseType
  addr : ℕ

structure Grant (P : CoherencePolicy) where
  gType : P.GrantType
  clientXactId : ℕ

inductive AcquireTrackerState
  | sIdle | sProbe | sMemRead | sMemWrite | sMakeGrant | sBusy
  deriving DecidableEq, Repr

/-- The registers of one `AcquireTracker`, for `n` clients. -/
structure AcquireTracker (P : CoherencePolicy) (n : ℕ) where
  state : AcquireTrackerState
  xact : Acquire P
  initClientId : Fin n
  initSharerCnt : ℕ
  releaseCount : ℕ
  probeFlags : Fin n → Bool

/-- A tracker, what it waits for from memory, and its messages in flight. -/
structure TrackerLink (P : CoherencePolicy) (n : ℕ) where
  tracker : AcquireTracker P n
  outerPending : Bool
  probes : Fin n → List (Probe P)
  releases : Fin n → List (Release P)
  grants : List (Fin n × Grant P)
  acks : ℕ

inductive VoluntaryReleaseState
  | sIdle | sMem | sAck
  deriving DecidableEq, Repr

/-- The voluntary release tracker, with the releases on their way to it and its grants. -/
structure VoluntaryReleaseTracker (P : CoherencePolicy) (n : ℕ) where
  state : VoluntaryReleaseState
  xact : Release P
  initClientId : Fin n
  releases : Fin n → List (Release P)
  grants : List (Fin n × P.GrantType)

/-- The system: `n` clients, `m` acquire trackers. -/
structure Sys (P : CoherencePolicy) (n m : ℕ) where
  line : Fin n → ℕ → P.ClientState
  outstanding : Fin n → ℕ → Option (Acquire P)
  acquires : Fin n → ℕ → Option (Acquire P)
  link : Fin m → TrackerLink P n
  vol : VoluntaryReleaseTracker P n

variable {P : CoherencePolicy} {n m : ℕ}

/-! ### The tracker -/

namespace AcquireTracker

variable (t : AcquireTracker P n)

def pendingOuterWrite : Bool := P.acquireHasData t.xact.aType

def pendingOuterRead : Bool := P.needsOuterRead t.xact.aType

def grantType : P.GrantType := P.getGrantType t.xact.aType t.initSharerCnt

/-- Where a transaction goes once nobody is left to probe. -/
def afterProbe : AcquireTrackerState :=
  if t.pendingOuterWrite then .sMemWrite else if t.pendingOuterRead then .sMemRead else .sMakeGrant

/-- `PopCount`. -/
def popCount (flags : Fin n → Bool) : ℕ := (Finset.univ.filter fun c => flags c = true).card

/-- `probe_initial_flags`: nobody with a single client, every coherent client otherwise, the
requester included. -/
def probeInitialFlags (incoherent : Fin n → Bool) : Fin n → Bool :=
  fun c => decide (1 < n) && !incoherent c

/-- `s_idle`: an acquire is accepted. Both counters are `log2Up(nClients)` bits wide. -/
def accept (src : Fin n) (a : Acquire P) (incoherent : Fin n → Bool) : AcquireTracker P n :=
  let flags := probeInitialFlags incoherent
  let t' : AcquireTracker P n := { t with
    xact := a
    initClientId := src
    initSharerCnt := n % 2 ^ log2Up n
    releaseCount := if 1 < n then popCount flags % 2 ^ log2Up n else 0
    probeFlags := flags }
  { t' with state := if ∃ c, flags c = true then .sProbe else t'.afterProbe }

/-- `curr_p_id`: the lowest flag that is up. -/
def IsCurrPId (c : Fin n) : Prop := t.probeFlags c = true ∧ ∀ c' < c, t.probeFlags c' = false

instance (c : Fin n) : Decidable (t.IsCurrPId c) := inferInstanceAs (Decidable (_ ∧ _))

/-- `s_probe`: the probe of `curr_p_id` is taken by the network. -/
def sendProbe (c : Fin n) : AcquireTracker P n :=
  { t with probeFlags := update t.probeFlags c false }

/-- `s_probe`: a release arrives, its data already written back if it has any. -/
def recvRelease : AcquireTracker P n :=
  { t with
    releaseCount := if 1 < n then wrap (log2Up n) ((t.releaseCount : ℤ) - 1) else 0
    state := if t.releaseCount = 1 then t.afterProbe else t.state }

/-- `s_mem_write`: the outer write is taken. -/
def memWrite : AcquireTracker P n :=
  { t with state := if t.pendingOuterRead then .sMemRead else .sMakeGrant }

/-- The end of `s_mem_read` and of `s_make_grant`. -/
def awaitAck : AcquireTracker P n :=
  { t with state := if P.requiresAckForGrant t.grantType then .sBusy else .sIdle }

/-- `s_busy`: the grant was acknowledged. -/
def recvAck : AcquireTracker P n := { t with state := .sIdle }

/-- The probe sent to each flagged client. -/
def probe : Probe P := ⟨P.getProbeType t.xact.aType, t.xact.addr⟩

/-- The grant, and whom it goes to. -/
def grant : Fin n × Grant P := (t.initClientId, ⟨t.grantType, t.xact.clientXactId⟩)

end AcquireTracker

/-! ### The tracker and its channels -/

namespace TrackerLink

variable (l : TrackerLink P n)

def accept (src : Fin n) (a : Acquire P) (incoherent : Fin n → Bool) : TrackerLink P n :=
  { l with tracker := l.tracker.accept src a incoherent }

def sendProbe (c : Fin n) : TrackerLink P n :=
  { l with
    tracker := l.tracker.sendProbe c
    probes := update l.probes c (l.probes c ++ [l.tracker.probe]) }

/-- Client `c` takes its first probe, leaving `rest`, and answers `r`. -/
def probed (c : Fin n) (rest : List (Probe P)) (r : Release P) : TrackerLink P n :=
  { l with
    probes := update l.probes c rest
    releases := update l.releases c (l.releases c ++ [r]) }

def recvRelease (c : Fin n) (rest : List (Release P)) : TrackerLink P n :=
  { l with
    tracker := l.tracker.recvRelease
    releases := update l.releases c rest }

def memWrite : TrackerLink P n := { l with tracker := l.tracker.memWrite }

def memRead : TrackerLink P n := { l with tracker := l.tracker.awaitAck, outerPending := true }

def makeGrant : TrackerLink P n :=
  { l with tracker := l.tracker.awaitAck, grants := l.grants ++ [l.tracker.grant] }

def outerGrant : TrackerLink P n :=
  { l with outerPending := false, grants := l.grants ++ [l.tracker.grant] }

/-- The client takes the first grant, leaving `rest`, and finishes if it has to. -/
def granted (g : Grant P) (rest : List (Fin n × Grant P)) : TrackerLink P n :=
  { l with
    grants := rest
    acks := l.acks + if P.requiresAckForGrant g.gType then 1 else 0 }

def recvAck : TrackerLink P n := { l with tracker := l.tracker.recvAck, acks := l.acks - 1 }

end TrackerLink

/-! ### The system -/

/-- Which handshake happens. -/
inductive Act (P : CoherencePolicy) (n m : ℕ)
  /-- A client reads or writes a line it holds. -/
  | hit (c : Fin n) (addr : ℕ) (cmd : MemCmd)
  /-- A client writes back, cleans or drops a line. -/
  | cacheControl (c : Fin n) (addr : ℕ) (cmd : MemCmd)
  /-- A client's cache misses on `cmd`, collects further misses of the same line, and asks for
  it. -/
  | miss (c : Fin n) (addr i : ℕ) (cmd : MemCmd) (secondary : List MemCmd)
  /-- A client asks for a line past its cache. -/
  | uncached (c : Fin n) (a : Acquire P)
  /-- A client answers a probe of tracker `t`. -/
  | probed (t : Fin m) (c : Fin n)
  /-- A client takes the grant of tracker `t`. -/
  | granted (t : Fin m)
  /-- A client takes the acknowledgement of its voluntary release. -/
  | volGranted
  | accept (t : Fin m) (c : Fin n) (xactId : ℕ) (incoherent : Fin n → Bool)
  | sendProbe (t : Fin m) (c : Fin n)
  | recvRelease (t : Fin m) (c : Fin n)
  | memWrite (t : Fin m)
  | memRead (t : Fin m)
  | makeGrant (t : Fin m)
  /-- The outer memory answers tracker `t`, which passes the data on. -/
  | outerGrant (t : Fin m)
  | recvAck (t : Fin m)
  | volRelease (c : Fin n)
  | volMem
  | volAck

/-- `acquire_type` of a miss on `cmd` once the misses in `secondary` were merged into it. -/
def missType (P : CoherencePolicy) (cmd : MemCmd) (secondary : List MemCmd) : P.AcquireType :=
  secondary.foldl (fun a cmd' => P.getAcquireTypeOnSecondaryMiss cmd' P.newStateOnFlush a)
    (P.getAcquireTypeOnPrimaryMiss cmd P.newStateOnFlush)

namespace Sys

variable (s : Sys P n m)

/-- The release a probe is answered with, and the line's state afterwards. A line that is not
there is left alone. -/
def probeReply (st : P.ClientState) (p : Probe P) : Release P × P.ClientState :=
  if P.isValid st then
    (⟨P.getReleaseTypeOnProbe p.pType st, p.addr⟩, P.newStateOnProbe p.pType st)
  else (⟨P.getReleaseTypeOnProbe p.pType P.newStateOnFlush, p.addr⟩, st)

def setLine (c : Fin n) (addr : ℕ) (st : P.ClientState) : Sys P n m :=
  { s with line := update s.line c (update (s.line c) addr st) }

theorem update₂_self {α β γ : Type} [DecidableEq α] [DecidableEq β] (f : α → β → γ) (a : α) (b : β)
    (v : γ) : update f a (update (f a) b v) a b = v := by
  rw [update_self, update_self]

theorem update₂_of_ne {α β γ : Type} [DecidableEq α] [DecidableEq β] {f : α → β → γ} {a a' : α}
    {b b' : β} {v : γ} (h : ¬(a' = a ∧ b' = b)) :
    update f a (update (f a) b v) a' b' = f a' b' := by
  by_cases ha : a' = a
  · subst ha
    rw [update_self, update_of_ne fun hb => h ⟨rfl, hb⟩]
  · rw [update_of_ne ha]

def setLink (t : Fin m) (l : TrackerLink P n) : Sys P n m :=
  { s with link := update s.link t l }

@[simp] theorem setLine_line_self (c : Fin n) (addr : ℕ) (st : P.ClientState) :
    (s.setLine c addr st).line c addr = st := update₂_self ..

@[simp] theorem setLink_link_self (t : Fin m) (l : TrackerLink P n) :
    (s.setLink t l).link t = l := update_self ..

theorem setLink_link_of_ne {t t' : Fin m} (h : t' ≠ t) (l : TrackerLink P n) :
    (s.setLink t l).link t' = s.link t' := update_of_ne h ..

def setOutstanding (c : Fin n) (i : ℕ) (a : Option (Acquire P)) : Sys P n m :=
  { s with outstanding := update s.outstanding c (update (s.outstanding c) i a) }

def setAcquires (c : Fin n) (i : ℕ) (a : Option (Acquire P)) : Sys P n m :=
  { s with acquires := update s.acquires c (update (s.acquires c) i a) }

/-- A grant of type `g` reaches the client that asked with `a`. An uncached request leaves the
client's cache alone. -/
def fill (c : Fin n) (a : Acquire P) (g : P.GrantType) : Sys P n m :=
  if P.messageIsUncached a.aType then s else s.setLine c a.addr (P.newStateOnGrant g a.aType)

/-- `any_acquire_conflict`: some tracker works on the line already. -/
def AcquireConflict (addr : ℕ) : Prop :=
  ∃ t, (s.link t).tracker.state ≠ .sIdle ∧ (s.link t).tracker.xact.addr = addr

instance (addr : ℕ) : Decidable (s.AcquireConflict addr) :=
  inferInstanceAs (Decidable (∃ _, _))

/-- `alloc_arb`: the first idle tracker takes an acquire. -/
def IsFirstIdle (t : Fin m) : Prop :=
  (s.link t).tracker.state = .sIdle ∧ ∀ t' < t, (s.link t').tracker.state ≠ .sIdle

instance (t : Fin m) : Decidable (s.IsFirstIdle t) := inferInstanceAs (Decidable (_ ∧ _))

/-- An acquire leaves its client. -/
def sendAcquire (c : Fin n) (a : Acquire P) : Sys P n m :=
  (s.setOutstanding c a.clientXactId (some a)).setAcquires c a.clientXactId (some a)

/-- One handshake; `none` if it cannot happen. -/
def step : Act P n m → Sys P n m → Option (Sys P n m)
  | .hit c addr cmd, s =>
    if P.isHit cmd (s.line c addr) then
      some (s.setLine c addr (P.newStateOnHit cmd (s.line c addr)))
    else none
  | .cacheControl c addr cmd, s =>
    if P.isValid (s.line c addr) then
      let s' := s.setLine c addr (P.newStateOnCacheControl cmd)
      if P.needsTransactionOnCacheControl cmd (s.line c addr) then
        some { s' with vol := { s.vol with
          releases := update s.vol.releases c
            (s.vol.releases c ++ [⟨P.getReleaseTypeOnCacheControl cmd, addr⟩]) } }
      else some s'
    else none
  | .miss c addr i cmd secondary, s =>
    if (s.outstanding c i).isNone ∧ P.isHit cmd (s.line c addr) = false then
      some (s.sendAcquire c ⟨missType P cmd secondary, addr, i⟩)
    else none
  | .uncached c a, s =>
    if (s.outstanding c a.clientXactId).isNone ∧ P.messageIsUncached a.aType then
      some (s.sendAcquire c a)
    else none
  | .probed t c, s =>
    match (s.link t).probes c with
    | [] => none
    | p :: rest =>
      let reply := probeReply (s.line c p.addr) p
      some ((s.setLine c p.addr reply.2).setLink t ((s.link t).probed c rest reply.1))
  | .granted t, s =>
    match (s.link t).grants with
    | [] => none
    | (c, g) :: rest =>
      match s.outstanding c g.clientXactId with
      | none => none
      | some a =>
        some (((s.fill c a g.gType).setOutstanding c g.clientXactId none).setLink t
          ((s.link t).granted g rest))
  | .volGranted, s =>
    match s.vol.grants with
    | [] => none
    | _ :: rest => some { s with vol := { s.vol with grants := rest } }
  | .accept t c i incoherent, s =>
    match s.acquires c i with
    | none => none
    | some a =>
      if s.IsFirstIdle t ∧ ¬s.AcquireConflict a.addr ∧
          ∀ c', incoherent c' = true → P.isValid (s.line c' a.addr) = false then
        some ((s.setAcquires c i none).setLink t ((s.link t).accept c a incoherent))
      else none
  | .sendProbe t c, s =>
    if (s.link t).tracker.state = .sProbe ∧ (s.link t).tracker.IsCurrPId c then
      some (s.setLink t ((s.link t).sendProbe c))
    else none
  | .recvRelease t c, s =>
    match (s.link t).releases c with
    | [] => none
    | _ :: rest =>
      if (s.link t).tracker.state = .sProbe then
        some (s.setLink t ((s.link t).recvRelease c rest))
      else none
  | .memWrite t, s =>
    if (s.link t).tracker.state = .sMemWrite then some (s.setLink t (s.link t).memWrite) else none
  | .memRead t, s =>
    if (s.link t).tracker.state = .sMemRead then some (s.setLink t (s.link t).memRead) else none
  | .makeGrant t, s =>
    if (s.link t).tracker.state = .sMakeGrant then some (s.setLink t (s.link t).makeGrant)
    else none
  | .outerGrant t, s =>
    if (s.link t).tracker.state = .sBusy ∧ (s.link t).outerPending = true then
      some (s.setLink t (s.link t).outerGrant)
    else none
  | .recvAck t, s =>
    if (s.link t).tracker.state = .sBusy ∧ 0 < (s.link t).acks then
      some (s.setLink t (s.link t).recvAck)
    else none
  | .volRelease c, s =>
    match s.vol.releases c with
    | [] => none
    | r :: rest =>
      if s.vol.state = .sIdle then
        some { s with vol := { s.vol with
          state := if P.releaseHasData r.rType then .sMem else .sAck
          xact := r
          initClientId := c
          releases := update s.vol.releases c rest } }
      else none
  | .volMem, s =>
    if s.vol.state = .sMem then some { s with vol := { s.vol with state := .sAck } } else none
  | .volAck, s =>
    if s.vol.state = .sAck then
      some { s with vol := { s.vol with
        state := .sIdle
        grants := s.vol.grants ++ [(s.vol.initClientId, P.getGrantTypeRel s.vol.xact.rType)] } }
    else none

/-- Out of reset: every line invalid, nothing in flight, every tracker idle. -/
structure IsReset (s : Sys P n m) : Prop where
  line : ∀ c addr, s.line c addr = P.newStateOnFlush
  outstanding : ∀ c i, s.outstanding c i = none
  acquires : ∀ c i, s.acquires c i = none
  idle : ∀ t, (s.link t).tracker.state = .sIdle
  flags : ∀ t c, (s.link t).tracker.probeFlags c = false
  outerPending : ∀ t, (s.link t).outerPending = false
  probes : ∀ t c, (s.link t).probes c = []
  releases : ∀ t c, (s.link t).releases c = []
  grants : ∀ t, (s.link t).grants = []
  acks : ∀ t, (s.link t).acks = 0
  volIdle : s.vol.state = .sIdle
  volReleases : ∀ c, s.vol.releases c = []
  volGrants : s.vol.grants = []

/-- The agent out of reset; `a` and `r` are what the uninitialised registers happen to hold. -/
def reset (hn : 0 < n) (m : ℕ) (a : P.AcquireType) (r : P.ReleaseType) : Sys P n m where
  line _ _ := P.newStateOnFlush
  outstanding _ _ := none
  acquires _ _ := none
  link _ :=
    { tracker := ⟨.sIdle, ⟨a, 0, 0⟩, ⟨0, hn⟩, 0, 0, fun _ => false⟩
      outerPending := false
      probes := fun _ => []
      releases := fun _ => []
      grants := []
      acks := 0 }
  vol := ⟨.sIdle, ⟨r, 0⟩, ⟨0, hn⟩, fun _ => [], []⟩

theorem isReset_reset (hn : 0 < n) (a : P.AcquireType) (r : P.ReleaseType) :
    (reset hn m a r).IsReset := by
  constructor <;> intros <;> rfl

/-- The system of `n` clients and `m` acquire trackers under policy `P`. -/
def machine (P : CoherencePolicy) (n m : ℕ) : Machine (Sys P n m) (Act P n m) :=
  Machine.ofFun IsReset step

end Sys

end RiscvSoc
