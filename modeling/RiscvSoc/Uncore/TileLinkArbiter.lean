import RiscvSoc.Lib.Arbiter
import RiscvSoc.Lib.Bits
import RiscvSoc.Lib.Machine

/-!
# The arbiters of the network

`UncachedTileLinkIOArbiter` and `TileLinkIOArbiter` from `uncore/src/main/scala/tilelink.scala`,
with `AppendsArbiterId`: several clients share one port. What the clients send goes through
round-robin arbiters, one for each channel. An acquire and a release get the number of their client
appended to their transaction id; a grant comes back with that id, and the number tells whom it is
for.

A probe is for all clients. It is shown to each of them, and it is gone as soon as one of them takes
it, so a client that is not ready in that cycle never gets it.

## The other side

What the port answers is an input. `cause` stands beside a grant and says which client's request,
and which transaction id of that client, the grant is an answer to; the circuit does not see it. A
request that a grant answers may be an acquire or a release, since a voluntary release is answered,
too. In `Tile` the releases of the data cache go past the arbiter, and the tile itself appends the
number of the port.
-/

namespace RiscvSoc

open Bits RRArbiter

/-- A message with a transaction id, and whatever else it carries. -/
structure XactMsg (β : Type) where
  clientXactId : ℕ
  rest : β

/-! ### Transaction ids -/

namespace AppendsArbiterId

variable (n : ℕ)

def clientSourcedClientXactId (id : ℕ) (j : Fin n) : ℕ := cat id (log2Up n) j

def masterSourcedClientXactId (id : ℕ) : ℕ := id / 2 ^ log2Up n

def arbIdx (id : ℕ) : ℕ := bits id (log2Up n - 1) 0

/-- There is room for the number of the client in an id of `w` bits. -/
def Fits (w id : ℕ) : Prop := (id + 1) * 2 ^ log2Up n ≤ 2 ^ w

variable {n} {w id : ℕ} {j : Fin n}

theorem val_lt : j.val < 2 ^ log2Up n := j.isLt.trans_le (le_two_pow_log2Up n)

theorem log2Up_pos (j : Fin n) : 0 < log2Up n := by
  rw [log2Up]
  split
  · exact Nat.one_pos
  · have hn := j.pos
    exact Nat.clog_pos Nat.one_lt_two (by omega)

theorem Fits.mod_eq (h : Fits n w id) :
    clientSourcedClientXactId n id j % 2 ^ w = clientSourcedClientXactId n id j := by
  refine Nat.mod_eq_of_lt (lt_of_lt_of_le ?_ h)
  rw [clientSourcedClientXactId, cat, Nat.add_mul, Nat.one_mul]
  exact Nat.add_lt_add_left val_lt _

@[simp] theorem arbIdx_clientSourced : arbIdx n (clientSourcedClientXactId n id j) = j := by
  rw [arbIdx, bits_low (log2Up_pos j), clientSourcedClientXactId, cat_mod val_lt]

@[simp] theorem masterSourced_clientSourced :
    masterSourcedClientXactId n (clientSourcedClientXactId n id j) = id :=
  cat_div val_lt

end AppendsArbiterId

open AppendsArbiterId

/-! ### Without probes and releases -/

/-- The registers of the arbiters for `io.in(_).acquire` and `io.in(_).grant_ack`. -/
structure UncachedTileLinkIOArbiter (n : ℕ) where
  acquireArb : Fin n
  grantAckArb : Fin n

/-- The inputs of one cycle: what the clients send and whether they are ready, and the same of the
port. -/
structure UncachedIn (n : ℕ) (A G K : Type) where
  acquire : Fin n → Option (XactMsg A)
  acquireReady : Bool
  grant : Option (XactMsg G)
  grantReady : Fin n → Bool
  grantAck : Fin n → Option K
  grantAckReady : Bool
  /-- The client and its transaction id that `grant` is an answer to. -/
  cause : Fin n × ℕ

section

variable {n : ℕ} {A G K R P β : Type} (w : ℕ)

/-- The bits of a client at its arbiter, with an id of `w` bits. -/
def hookupClientSource (inp : Fin n → Option (XactMsg β)) (j : Fin n) : Option (XactMsg β) :=
  (inp j).map fun m =>
    { m with clientXactId := clientSourcedClientXactId n m.clientXactId j % 2 ^ w }

/-- What client `j` is shown of the grant. -/
def hookupMasterSource (grant : Option (XactMsg G)) (j : Fin n) : Option (XactMsg G) :=
  grant.bind fun m =>
    if arbIdx n m.clientXactId = j then
      some { m with clientXactId := masterSourcedClientXactId n m.clientXactId }
    else none

/-- `io.out.grant.ready`, when the bits of the grant are `m`. -/
def masterSourceReady (ready : Fin n → Bool) (m : XactMsg G) : Bool :=
  if h : arbIdx n m.clientXactId < n then ready ⟨_, h⟩ else false

namespace UncachedTileLinkIOArbiter

variable (s : UncachedTileLinkIOArbiter n) (i : UncachedIn n A G K)

/-- `io.out.acquire.bits` under `io.out.acquire.valid`. -/
def outAcquire : Option (XactMsg A) :=
  (shown s.acquireArb (hookupClientSource w i.acquire)).map Prod.snd

def outGrantAck : Option K := (shown s.grantAckArb i.grantAck).map Prod.snd

def next : UncachedTileLinkIOArbiter n where
  acquireArb := RRArbiter.next s.acquireArb (fun j => (i.acquire j).isSome) i.acquireReady
  grantAckArb := RRArbiter.next s.grantAckArb (fun j => (i.grantAck j).isSome) i.grantAckReady

/-- Reset. -/
structure IsReset : Prop where
  acquireArb : s.acquireArb.val = 0
  grantAckArb : s.grantAckArb.val = 0

end UncachedTileLinkIOArbiter

/-- What was handed over at the clients, with the number of the client, and at the port. -/
structure UncachedLog (n : ℕ) (A G K : Type) where
  acquires : List (Fin n × XactMsg A)
  outAcquires : List (XactMsg A)
  grantAcks : List (Fin n × K)
  outGrantAcks : List K
  /-- A grant that the port handed over, with its cause. -/
  outGrants : List ((Fin n × ℕ) × XactMsg G)
  grants : List (Fin n × XactMsg G)

/-- Every acquire and every acknowledgement comes out exactly once and in order, and every grant
goes to the client whose request it answers, with that client's transaction id. -/
structure UncachedLog.Returns (g : UncachedLog n A G K) : Prop where
  acquires : g.outAcquires = g.acquires.map fun x =>
    { x.2 with clientXactId := clientSourcedClientXactId n x.2.clientXactId x.1 }
  grantAcks : g.outGrantAcks = g.grantAcks.map Prod.snd
  grants : g.grants = g.outGrants.map fun x => (x.1.1, { x.2 with clientXactId := x.1.2 })

namespace UncachedTileLinkIOArbiter

variable (s : UncachedTileLinkIOArbiter n) (i : UncachedIn n A G K)

/-- The acquires that the clients hand over. -/
def acquireGiven : List (Fin n × XactMsg A) := RRArbiter.given s.acquireArb i.acquire i.acquireReady

def grantAckGiven : List (Fin n × K) := RRArbiter.given s.grantAckArb i.grantAck i.grantAckReady

/-- The grants that the clients take. -/
def grantTaken (i : UncachedIn n A G K) : List (Fin n × XactMsg G) :=
  (List.finRange n).filterMap fun j =>
    if i.grantReady j then (hookupMasterSource i.grant j).map (Prod.mk j) else none

/-- The log goes on. -/
def note (g : UncachedLog n A G K) : UncachedLog n A G K where
  acquires := g.acquires ++ s.acquireGiven i
  outAcquires := g.outAcquires ++ if i.acquireReady then (s.outAcquire w i).toList else []
  grantAcks := g.grantAcks ++ s.grantAckGiven i
  outGrantAcks := g.outGrantAcks ++ if i.grantAckReady then (s.outGrantAck i).toList else []
  outGrants := g.outGrants ++
    ((i.grant.filter (masterSourceReady i.grantReady)).map (Prod.mk i.cause)).toList
  grants := g.grants ++ grantTaken i

def machine (n w : ℕ) (A G K : Type) :
    Machine (UncachedTileLinkIOArbiter n × UncachedLog n A G K) (UncachedIn n A G K) :=
  (Machine.clocked IsReset next).observe ⟨[], [], [], [], [], []⟩ (note w)

/-- The ids of the clients leave room for the number of the client, and a grant carries the id under
which the request went out that it answers. That is an acquire, or a release, which the tile sends
past this arbiter with the number of its client appended in the same way. -/
structure Promised (x : UncachedTileLinkIOArbiter n × UncachedLog n A G K)
    (i : UncachedIn n A G K) : Prop where
  fits : ∀ j, ∀ m ∈ i.acquire j, Fits n w m.clientXactId
  answers : ∀ m ∈ i.grant, ((∃ a, (i.cause.1, a) ∈ x.2.acquires ∧ a.clientXactId = i.cause.2) ∨
      Fits n w i.cause.2) ∧
    m.clientXactId = clientSourcedClientXactId n i.cause.2 i.cause.1 % 2 ^ w

end UncachedTileLinkIOArbiter

/-! ### With probes and releases -/

structure TileLinkIOArbiter (n : ℕ) extends UncachedTileLinkIOArbiter n where
  releaseArb : Fin n

structure TileLinkIn (n : ℕ) (A G K R P : Type) extends UncachedIn n A G K where
  release : Fin n → Option (XactMsg R)
  releaseReady : Bool
  probe : Option P
  probeReady : Fin n → Bool

structure TileLinkLog (n : ℕ) (A G K R P : Type) extends UncachedLog n A G K where
  releases : List (Fin n × XactMsg R)
  outReleases : List (XactMsg R)
  outProbes : List P
  probes : Fin n → List P

namespace TileLinkIOArbiter

variable (s : TileLinkIOArbiter n) (i : TileLinkIn n A G K R P)

def outRelease : Option (XactMsg R) :=
  (shown s.releaseArb (hookupClientSource w i.release)).map Prod.snd

/-- `io.out.probe.ready`. -/
def outProbeReady (i : TileLinkIn n A G K R P) : Bool := orR i.probeReady

def next : TileLinkIOArbiter n where
  toUncachedTileLinkIOArbiter := s.toUncachedTileLinkIOArbiter.next i.toUncachedIn
  releaseArb := RRArbiter.next s.releaseArb (fun j => (i.release j).isSome) i.releaseReady

/-- Reset. -/
structure IsReset : Prop where
  uncached : s.toUncachedTileLinkIOArbiter.IsReset
  releaseArb : s.releaseArb.val = 0

def releaseGiven : List (Fin n × XactMsg R) := RRArbiter.given s.releaseArb i.release i.releaseReady

/-- The log goes on. Every client sees the probe. -/
def note (g : TileLinkLog n A G K R P) : TileLinkLog n A G K R P where
  toUncachedLog := s.toUncachedTileLinkIOArbiter.note w i.toUncachedIn g.toUncachedLog
  releases := g.releases ++ s.releaseGiven i
  outReleases := g.outReleases ++ if i.releaseReady then (s.outRelease w i).toList else []
  outProbes := g.outProbes ++ if outProbeReady i then i.probe.toList else []
  probes j := g.probes j ++ if i.probeReady j then i.probe.toList else []

def machine (n w : ℕ) (A G K R P : Type) :
    Machine (TileLinkIOArbiter n × TileLinkLog n A G K R P) (TileLinkIn n A G K R P) :=
  (Machine.clocked IsReset next).observe
    ⟨⟨[], [], [], [], [], []⟩, [], [], [], fun _ => []⟩ (note w)

/-- As without releases; a grant may also answer a release. -/
structure Promised (x : TileLinkIOArbiter n × TileLinkLog n A G K R P)
    (i : TileLinkIn n A G K R P) : Prop where
  fits : ∀ j, ∀ m ∈ i.acquire j, Fits n w m.clientXactId
  fitsRelease : ∀ j, ∀ m ∈ i.release j, Fits n w m.clientXactId
  answers : ∀ m ∈ i.grant, ((∃ a, (i.cause.1, a) ∈ x.2.acquires ∧ a.clientXactId = i.cause.2) ∨
      ∃ r, (i.cause.1, r) ∈ x.2.releases ∧ r.clientXactId = i.cause.2) ∧
    m.clientXactId = clientSourcedClientXactId n i.cause.2 i.cause.1 % 2 ^ w

/-- All clients take the probe, or none does. -/
def ProbeTogether (i : TileLinkIn n A G K R P) : Prop :=
  i.probe.isSome = true → (∃ j, i.probeReady j = true) → ∀ j, i.probeReady j = true

end TileLinkIOArbiter

/-- The messages of a cached client come out and find back, too. -/
structure TileLinkLog.Returns (g : TileLinkLog n A G K R P) : Prop where
  uncached : g.toUncachedLog.Returns
  releases : g.outReleases = g.releases.map fun x =>
    { x.2 with clientXactId := clientSourcedClientXactId n x.2.clientXactId x.1 }

/-- Every probe went once to every client. -/
def TileLinkLog.ProbesAll (g : TileLinkLog n A G K R P) : Prop := ∀ j, g.probes j = g.outProbes

/-! ### One cycle of a channel -/

variable {w} {j : Fin n} {id : ℕ}

variable {last : Fin n} {inp : Fin n → Option (XactMsg β)} {ready : Bool} {m : XactMsg G}

/-- What the port takes of a channel is what the clients hand over, under longer ids. -/
theorem taken_hookupClientSource (hfits : ∀ j, ∀ m ∈ inp j, Fits n w m.clientXactId) :
    (if ready then ((shown last (hookupClientSource w inp)).map Prod.snd).toList else []) =
      (RRArbiter.given last inp ready).map fun x =>
        { x.2 with clientXactId := clientSourcedClientXactId n x.2.clientXactId x.1 } := by
  have hvalid : (fun j => (hookupClientSource w inp j).isSome) = fun j => (inp j).isSome := by
    funext j
    simp [hookupClientSource]
  rw [given_eq, shown, shown, hvalid]
  cases ready with
  | false => simp
  | true =>
    cases hc : chosen last (fun j => (inp j).isSome) with
    | none => simp
    | some k =>
      obtain ⟨m, hm⟩ := Option.isSome_iff_exists.mp (valid_of_chosen hc)
      simp [hookupClientSource, hm, (hfits k m hm).mod_eq]

theorem taken_shown {inp : Fin n → Option K} :
    (if ready then ((shown last inp).map Prod.snd).toList else []) =
      (RRArbiter.given last inp ready).map Prod.snd := by
  rw [given_eq]
  cases ready <;> cases shown last inp <;> simp

/-- A grant is shown to the client whose number it carries. -/
theorem hookupMasterSource_eq (hm : m.clientXactId = clientSourcedClientXactId n id j) (k : Fin n) :
    hookupMasterSource (some m) k = if k = j then some { m with clientXactId := id } else none := by
  by_cases hk : k = j
  · subst hk
    simp [hookupMasterSource, hm]
  · simp [hookupMasterSource, hm, hk, Fin.val_inj, Ne.symm hk]

theorem masterSourceReady_eq {ready : Fin n → Bool}
    (hm : m.clientXactId = clientSourcedClientXactId n id j) :
    masterSourceReady ready m = ready j := by
  simp [masterSourceReady, hm]

/-- **A grant finds its client.** It is taken by the client whose request it answers, when the port
hands it over, and by nobody else. -/
theorem grantTaken_eq {i : UncachedIn n A G K} (hanswers : ∀ m ∈ i.grant,
      m.clientXactId = clientSourcedClientXactId n i.cause.2 i.cause.1) :
    UncachedTileLinkIOArbiter.grantTaken i =
      ((i.grant.filter (masterSourceReady i.grantReady)).map (Prod.mk i.cause)).toList.map
        fun x => (x.1.1, { x.2 with clientXactId := x.1.2 }) := by
  rw [UncachedTileLinkIOArbiter.grantTaken]
  cases hg : i.grant with
  | none => simp [hookupMasterSource]
  | some m =>
    have hm := hanswers m hg
    have hentry : ∀ k, (if i.grantReady k then (hookupMasterSource (some m) k).map (Prod.mk k)
        else none) = if k = i.cause.1 then (if i.grantReady i.cause.1 then
          some (i.cause.1, { m with clientXactId := i.cause.2 }) else none) else none := by
      intro k
      rw [hookupMasterSource_eq hm]
      by_cases hk : k = i.cause.1
      · simp [hk]
      · simp [hk]
    rw [funext hentry, Option.filter_some, masterSourceReady_eq hm]
    cases hr : i.grantReady i.cause.1 with
    | false => simp
    | true =>
      simp only [if_true]
      rw [filterMap_single (List.nodup_finRange n) (List.mem_finRange i.cause.1)]
      rfl

/-! ### Whole runs -/

/-- The requests that were sent left room for the number of their client. -/
def UncachedLog.AllFit (w : ℕ) (g : UncachedLog n A G K) : Prop :=
  ∀ x ∈ g.acquires, Fits n w x.2.clientXactId

theorem given_fits (hfits : ∀ j, ∀ m ∈ inp j, Fits n w m.clientXactId) :
    ∀ x ∈ RRArbiter.given last inp ready, Fits n w x.2.clientXactId := by
  rintro ⟨j, m⟩ hx
  obtain ⟨k, -, hk⟩ := List.mem_filterMap.mp hx
  split at hk
  · obtain ⟨m', hm', heq⟩ := Option.map_eq_some_iff.mp hk
    cases heq
    exact hfits j m hm'
  · cases hk

namespace UncachedTileLinkIOArbiter

variable {s : UncachedTileLinkIOArbiter n} {i : UncachedIn n A G K} {g : UncachedLog n A G K}

theorem returns_note (h : g.Returns) (hfits : ∀ j, ∀ m ∈ i.acquire j, Fits n w m.clientXactId)
    (hanswers : ∀ m ∈ i.grant,
      m.clientXactId = clientSourcedClientXactId n i.cause.2 i.cause.1) :
    (s.note w i g).Returns where
  acquires := by
    show g.outAcquires ++ _ = (g.acquires ++ s.acquireGiven i).map _
    rw [List.map_append, h.acquires]
    exact congrArg _ (taken_hookupClientSource hfits)
  grantAcks := by
    show g.outGrantAcks ++ _ = (g.grantAcks ++ s.grantAckGiven i).map _
    rw [List.map_append, h.grantAcks]
    exact congrArg _ taken_shown
  grants := by
    show g.grants ++ grantTaken i = (g.outGrants ++ _).map _
    rw [List.map_append, h.grants, grantTaken_eq hanswers]

theorem allFit_note (h : g.AllFit w) (hfits : ∀ j, ∀ m ∈ i.acquire j, Fits n w m.clientXactId) :
    (s.note w i g).AllFit w := by
  intro x hx
  rcases List.mem_append.mp hx with hx | hx
  · exact h x hx
  · exact given_fits hfits x hx

theorem reachable_returns {x : UncachedTileLinkIOArbiter n × UncachedLog n A G K}
    (h : ((machine n w A G K).restrict (Promised w)).Reachable x) :
    x.2.Returns ∧ x.2.AllFit w := by
  refine Machine.invariant (I := fun x => x.2.Returns ∧ x.2.AllFit w) ?_ ?_ x h
  · rintro ⟨s, g⟩ ⟨-, rfl⟩
    exact ⟨⟨rfl, rfl, rfl⟩, nofun⟩
  · rintro ⟨s, g⟩ i ⟨s', g'⟩ - ⟨hret, hfit⟩ ⟨hp, rfl, rfl⟩
    refine ⟨returns_note hret hp.fits fun m hm => ?_, allFit_note hfit hp.fits⟩
    obtain ⟨⟨a, ha, hid⟩ | hcause, heq⟩ := hp.answers m hm
    · rw [heq, Fits.mod_eq (hid ▸ hfit _ ha)]
    · rw [heq, hcause.mod_eq]

end UncachedTileLinkIOArbiter

namespace TileLinkIOArbiter

variable {s : TileLinkIOArbiter n} {i : TileLinkIn n A G K R P} {g : TileLinkLog n A G K R P}

/-- Every request that was sent left room for the number of its client. -/
def AllFit (w : ℕ) (g : TileLinkLog n A G K R P) : Prop :=
  g.toUncachedLog.AllFit w ∧ ∀ x ∈ g.releases, Fits n w x.2.clientXactId

variable {x : TileLinkIOArbiter n × TileLinkLog n A G K R P}

theorem reachable_returns (h : ((machine n w A G K R P).restrict (Promised w)).Reachable x) :
    x.2.Returns ∧ AllFit w x.2 := by
  refine Machine.invariant (I := fun x => x.2.Returns ∧ AllFit w x.2) ?_ ?_ x h
  · rintro ⟨s, g⟩ ⟨-, rfl⟩
    exact ⟨⟨⟨rfl, rfl, rfl⟩, rfl⟩, nofun, nofun⟩
  · rintro ⟨s, g⟩ i ⟨s', g'⟩ - ⟨hret, hfit, hfitRelease⟩ ⟨hp, rfl, rfl⟩
    have hanswers : ∀ m ∈ i.grant,
        m.clientXactId = clientSourcedClientXactId n i.cause.2 i.cause.1 := by
      intro m hm
      obtain ⟨⟨a, ha, hid⟩ | ⟨r, hr, hid⟩, heq⟩ := hp.answers m hm
      · rw [heq, Fits.mod_eq (hid ▸ hfit _ ha)]
      · rw [heq, Fits.mod_eq (hid ▸ hfitRelease _ hr)]
    refine ⟨⟨UncachedTileLinkIOArbiter.returns_note hret.uncached hp.fits hanswers, ?_⟩,
      UncachedTileLinkIOArbiter.allFit_note hfit hp.fits, fun x hx => ?_⟩
    · show g.outReleases ++ _ = (g.releases ++ s.releaseGiven i).map _
      rw [List.map_append, hret.releases]
      exact congrArg _ (taken_hookupClientSource hp.fitsRelease)
    · rcases List.mem_append.mp hx with hx | hx
      · exact hfitRelease x hx
      · exact given_fits hp.fitsRelease x hx

/-- **A probe reaches all clients exactly if they take it together.** -/
theorem probesAll_note_iff (h : g.ProbesAll) : (s.note w i g).ProbesAll ↔ ProbeTogether i := by
  have hiff : (s.note w i g).ProbesAll ↔ ∀ j, (if i.probeReady j then i.probe.toList else []) =
      if outProbeReady i then i.probe.toList else [] := by
    refine forall_congr' fun j => ?_
    show g.probes j ++ _ = g.outProbes ++ _ ↔ _
    rw [h j, List.append_cancel_left_eq]
  rw [hiff, ProbeTogether]
  cases hprobe : i.probe with
  | none => simp
  | some p =>
    constructor
    · intro hall _ hsome j
      have hready : outProbeReady i = true := orR_eq_true.mpr hsome
      by_contra hj
      simpa [hj, hready] using hall j
    · intro htogether j
      by_cases hsome : ∃ j, i.probeReady j = true
      · have hready : outProbeReady i = true := orR_eq_true.mpr hsome
        simp [htogether rfl hsome j, hready]
      · have hready : outProbeReady i = false := Bool.eq_false_iff.mpr (mt orR_eq_true.mp hsome)
        have hj : i.probeReady j = false := Bool.eq_false_iff.mpr fun hj => hsome ⟨j, hj⟩
        simp [hj, hready]

theorem reachable_probesAll
    (h : ((machine n w A G K R P).restrict fun _ i => ProbeTogether i).Reachable x) :
    x.2.ProbesAll := by
  refine Machine.invariant (I := fun x => x.2.ProbesAll) ?_ ?_ x h
  · rintro ⟨s, g⟩ ⟨-, rfl⟩
    exact fun _ => rfl
  · rintro ⟨s, g⟩ i ⟨s', g'⟩ - hall ⟨htogether, rfl, rfl⟩
    exact (probesAll_note_iff hall).mpr htogether

end TileLinkIOArbiter

/-- On a channel with this `ready` at the port, these offers and these handshakes of the clients,
what a client keeps offering goes through, if the port is ready again and again. -/
def KeepsMoving {σ ι : Type} (M : Machine σ ι) (ready : ι → Bool) (offer : ι → Fin n → Option β)
    (given : σ → ι → List (Fin n × β)) : Prop :=
  ∀ st lab, M.Run st lab → (∀ t, ∃ u ≥ t, ready (lab u) = true) → ∀ j m t,
    (∀ u ≥ t, (∀ v, t ≤ v → v < u → (j, m) ∉ given (st v) (lab v)) → offer (lab u) j = some m) →
    ∃ u ≥ t, (j, m) ∈ given (st u) (lab u)

/-- A channel whose arbiter is the register `arb`. -/
theorem keepsMoving_of_arb {σ ι : Type} {M : Machine σ ι} {ready : ι → Bool}
    {offer : ι → Fin n → Option β} (arb : σ → Fin n)
    (hnext : ∀ s i s', M.step s i s' →
      arb s' = RRArbiter.next (arb s) (fun j => (offer i j).isSome) (ready i)) :
    KeepsMoving M ready offer fun s i => RRArbiter.given (arb s) (offer i) (ready i) := by
  intro st lab h hready j m t hstay
  have hnext' : ∀ t, arb (st (t + 1)) =
      RRArbiter.next (arb (st t)) (fun j => (offer (lab t) j).isSome) (ready (lab t)) :=
    fun t => hnext _ _ _ (h.step t)
  exact @eventually_given n β (fun t => arb (st t)) (fun t => offer (lab t))
    (fun t => ready (lab t)) hnext' hready j m t hstay

theorem UncachedTileLinkIOArbiter.keepsMoving (n w : ℕ) (A G K : Type) :
    KeepsMoving (machine n w A G K) (·.acquireReady) (·.acquire) (fun x i => x.1.acquireGiven i) ∧
      KeepsMoving (machine n w A G K) (·.grantAckReady) (·.grantAck)
        fun x i => x.1.grantAckGiven i := by
  have hnext : ∀ x i x', (machine n w A G K).step x i x' → x'.1 = x.1.next i :=
    fun _ _ _ h => h.1
  constructor
  · refine @keepsMoving_of_arb n _ _ _ (machine n w A G K) (·.acquireReady) (·.acquire)
      (fun x => x.1.acquireArb) fun x i x' h => ?_
    rw [hnext x i x' h, next]
  · refine @keepsMoving_of_arb n _ _ _ (machine n w A G K) (·.grantAckReady) (·.grantAck)
      (fun x => x.1.grantAckArb) fun x i x' h => ?_
    rw [hnext x i x' h, next]

theorem TileLinkIOArbiter.keepsMoving (n w : ℕ) (A G K R P : Type) :
    KeepsMoving (machine n w A G K R P) (·.acquireReady) (·.acquire)
        (fun x i => x.1.acquireGiven i.toUncachedIn) ∧
      KeepsMoving (machine n w A G K R P) (·.grantAckReady) (·.grantAck)
        (fun x i => x.1.grantAckGiven i.toUncachedIn) ∧
      KeepsMoving (machine n w A G K R P) (·.releaseReady) (·.release)
        fun x i => x.1.releaseGiven i := by
  have hnext : ∀ x i x', (machine n w A G K R P).step x i x' → x'.1 = x.1.next i :=
    fun _ _ _ h => h.1
  refine ⟨?_, ?_, ?_⟩
  · refine @keepsMoving_of_arb n _ _ _ (machine n w A G K R P) (·.acquireReady) (·.acquire)
      (fun x => x.1.acquireArb) fun x i x' h => ?_
    rw [hnext x i x' h, next, UncachedTileLinkIOArbiter.next]
  · refine @keepsMoving_of_arb n _ _ _ (machine n w A G K R P) (·.grantAckReady) (·.grantAck)
      (fun x => x.1.grantAckArb) fun x i x' h => ?_
    rw [hnext x i x' h, next, UncachedTileLinkIOArbiter.next]
  · refine @keepsMoving_of_arb n _ _ _ (machine n w A G K R P) (·.releaseReady) (·.release)
      (fun x => x.1.releaseArb) fun x i x' h => ?_
    rw [hnext x i x' h, next]

/-- **The arbiters return each reply to its requester.** For any number of clients and any traffic
whose ids leave room: every acquire, release and acknowledgement that a client hands over comes out
once and in order, and what a client keeps offering is handed over in the end; every grant that the
port hands over is taken by the client whose request it answers and by nobody else, with that
client's transaction id. In runs in which every probe is taken by all clients or by none, every
client gets all probes that the port handed over; and as long as that is so, a cycle keeps it so
exactly if it meets this condition. -/
theorem tileLinkArbiter_returns (n w : ℕ) (A G K R P : Type) :
    ((∀ x, ((UncachedTileLinkIOArbiter.machine n w A G K).restrict
        (UncachedTileLinkIOArbiter.Promised w)).Reachable x → x.2.Returns) ∧
      KeepsMoving (UncachedTileLinkIOArbiter.machine n w A G K) (·.acquireReady) (·.acquire)
        (fun x i => x.1.acquireGiven i) ∧
      KeepsMoving (UncachedTileLinkIOArbiter.machine n w A G K) (·.grantAckReady) (·.grantAck)
        fun x i => x.1.grantAckGiven i) ∧
    ((∀ x, ((TileLinkIOArbiter.machine n w A G K R P).restrict
        (TileLinkIOArbiter.Promised w)).Reachable x → x.2.Returns) ∧
      KeepsMoving (TileLinkIOArbiter.machine n w A G K R P) (·.acquireReady) (·.acquire)
        (fun x i => x.1.acquireGiven i.toUncachedIn) ∧
      KeepsMoving (TileLinkIOArbiter.machine n w A G K R P) (·.grantAckReady) (·.grantAck)
        (fun x i => x.1.grantAckGiven i.toUncachedIn) ∧
      KeepsMoving (TileLinkIOArbiter.machine n w A G K R P) (·.releaseReady) (·.release)
        fun x i => x.1.releaseGiven i) ∧
    (∀ x, ((TileLinkIOArbiter.machine n w A G K R P).restrict
        fun _ i => TileLinkIOArbiter.ProbeTogether i).Reachable x → x.2.ProbesAll) ∧
    ∀ (s : TileLinkIOArbiter n) (g : TileLinkLog n A G K R P) i, g.ProbesAll →
      ((s.note w i g).ProbesAll ↔ TileLinkIOArbiter.ProbeTogether i) := by
  refine ⟨⟨fun x hx => ?_, UncachedTileLinkIOArbiter.keepsMoving n w A G K⟩,
    ⟨fun x hx => ?_, TileLinkIOArbiter.keepsMoving n w A G K R P⟩,
    fun x hx => ?_, fun s g i h => ?_⟩
  · exact (UncachedTileLinkIOArbiter.reachable_returns hx).1
  · exact (TileLinkIOArbiter.reachable_returns hx).1
  · exact TileLinkIOArbiter.reachable_probesAll hx
  · exact TileLinkIOArbiter.probesAll_note_iff h

end

/-! ### A probe that is missed -/

/-- A probe comes while only client 0 of two is ready. -/
def probeOne : TileLinkIn 2 Unit Unit Unit Unit Unit where
  acquire _ := none
  acquireReady := true
  grant := none
  grantReady _ := true
  grantAck _ := none
  grantAckReady := true
  cause := (0, 0)
  release _ := none
  releaseReady := true
  probe := some ()
  probeReady j := j == 0

/-- Reset, with two clients. -/
def arbStart : TileLinkIOArbiter 2 × TileLinkLog 2 Unit Unit Unit Unit Unit :=
  (⟨⟨0, 0⟩, 0⟩, ⟨⟨[], [], [], [], [], []⟩, [], [], [], fun _ => []⟩)

theorem not_tileLinkArbiter_returns :
    ¬ ∀ x, ((TileLinkIOArbiter.machine 2 4 Unit Unit Unit Unit Unit).restrict
      (TileLinkIOArbiter.Promised 4)).Reachable x → x.2.ProbesAll := by
  intro h
  have hpromised : TileLinkIOArbiter.Promised 4 arbStart probeOne :=
    ⟨fun _ _ hm => (Option.some_ne_none _ hm.symm).elim,
      fun _ _ hm => (Option.some_ne_none _ hm.symm).elim,
      fun _ hm => (Option.some_ne_none _ hm.symm).elim⟩
  have hstart : ((TileLinkIOArbiter.machine 2 4 Unit Unit Unit Unit Unit).restrict
      (TileLinkIOArbiter.Promised 4)).Reachable arbStart := .init ⟨⟨⟨rfl, rfl⟩, rfl⟩, rfl⟩
  have hall := h (arbStart.1.next probeOne, arbStart.1.note 4 probeOne arbStart.2)
    (.step hstart ⟨hpromised, rfl, rfl⟩) 1
  exact absurd hall (by decide)

end RiscvSoc
