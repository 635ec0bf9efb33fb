import RiscvSoc.Lib.Bits
import RiscvSoc.Lib.Machine
import RiscvSoc.Top.Network

/-!
# Tiles, coherence agents, and what is between them

`Uncore` and `FPGAUncore` put the headers on the messages of the clients and join the channels of
the clients to the network. The source of a message is the number of its client. An acquire and a
release go to the bank of their address; a grant acknowledgement goes where its header says.

The two differ in one line. `FPGAUncore` feeds the channel of the grant acknowledgements from the
releases of the client: every release also goes through the network as a grant acknowledgement, and
the grant acknowledgements of the client are not connected to anything. Nothing is wrong as long as
a client sends neither of the two.

The indices of the clients come after the ones of the banks in the headers of the network. With two
tiles and two banks the host interface has no number there any more: a message to it is never sent.
-/

namespace RiscvSoc

namespace Uncore

open Bits CrossbarNetwork

/-- The numbers of an uncore, and the parts of the messages that the network does not look at. -/
structure UncoreConf where
  nTiles : ℕ
  nBanks : ℕ
  bankIdLsb : ℕ
  addrBits : ℕ
  masterXactIdBits : ℕ
  AcquireBody : Type
  ReleaseBody : Type
  Probe : Type
  Grant : Type

/-- The clients are the tiles and the host interface. -/
def UncoreConf.ln (c : UncoreConf) : LogicalNetworkConf where
  idBits := log2Up c.nTiles + 1
  nMasters := c.nBanks
  nClients := c.nTiles + 1

theorem UncoreConf.nClients_le (c : UncoreConf) : c.ln.nClients ≤ 2 ^ c.ln.idBits := by
  have hlog := le_two_pow_log2Up c.nTiles
  have hpos : 1 ≤ 2 ^ log2Up c.nTiles := Nat.one_le_two_pow
  show c.nTiles + 1 ≤ 2 ^ (log2Up c.nTiles + 1)
  rw [pow_succ]
  omega

structure Acquire (c : UncoreConf) where
  addr : BitVec c.addrBits
  body : c.AcquireBody

structure Release (c : UncoreConf) where
  addr : BitVec c.addrBits
  masterXactId : BitVec c.masterXactIdBits
  body : c.ReleaseBody

structure GrantAck (c : UncoreConf) where
  masterXactId : BitVec c.masterXactIdBits
  deriving DecidableEq

/-- Which top level the network is in. -/
inductive Wiring
  | uncore
  | fpga

/-- The queues and the arbiters of the five channels. -/
structure UncoreNet (c : UncoreConf) where
  acquire : ClientChannel c.ln (Acquire c)
  release : ClientChannel c.ln (Release c)
  grantAck : ClientChannel c.ln (GrantAck c)
  probe : MasterChannel c.ln c.Probe 2
  grant : MasterChannel c.ln c.Grant 1

/-- What the clients and the agents put on their ports in a cycle. -/
structure UncoreNetIn (c : UncoreConf) where
  acquire : Fin c.ln.nClients → Option (NetworkIo c.ln (Acquire c))
  release : Fin c.ln.nClients → Option (NetworkIo c.ln (Release c))
  grantAck : Fin c.ln.nClients → Option (NetworkIo c.ln (GrantAck c))
  probeReady : Fin c.ln.nClients → Bool
  grantReady : Fin c.ln.nClients → Bool
  acquireReady : Fin c.ln.nMasters → Bool
  releaseReady : Fin c.ln.nMasters → Bool
  grantAckReady : Fin c.ln.nMasters → Bool
  probe : Fin c.ln.nMasters → Option (NetworkIo c.ln c.Probe)
  grant : Fin c.ln.nMasters → Option (NetworkIo c.ln c.Grant)
  /-- What a client reads on a `ready` that is not connected. -/
  openReady : Fin c.ln.nClients → Bool

namespace UncoreNet

variable {c : UncoreConf}

/-! ### The wirings -/

def convertAddrToBank (addr : BitVec c.addrBits) : BitVec (log2Up c.nBanks) :=
  addr.extractLsb' c.bankIdLsb (log2Up c.nBanks)

/-- `TileLinkHeaderOverwriter`: the source is the client's number. -/
def overwriteSrc {α : Type} (k : Fin c.ln.nClients) (x : NetworkIo c.ln α) : NetworkIo c.ln α :=
  { x with src := BitVec.ofNat c.ln.idBits k }

/-- `TileLinkHeaderOverwriter` of a message with an address: it goes to the address's bank. -/
def overwriteDst {α : Type} (addr : α → BitVec c.addrBits) (k : Fin c.ln.nClients)
    (x : NetworkIo c.ln α) : NetworkIo c.ln α :=
  { overwriteSrc k x with
    dst := if c.nBanks > 1 then (convertAddrToBank (addr x.payload)).setWidth c.ln.idBits else 0 }

/-- A release on wires that expect a grant acknowledgement: the fields of the same name. -/
def asGrantAck (x : NetworkIo c.ln (Release c)) : NetworkIo c.ln (GrantAck c) :=
  ⟨x.src, x.dst, ⟨x.payload.masterXactId⟩⟩

variable (w : Wiring) (s : UncoreNet c) (i : UncoreNetIn c)

def acquireIn : ClientChannelIn c.ln (Acquire c) where
  enq k := (i.acquire k).map (overwriteDst Acquire.addr k)
  ready := i.acquireReady

def releaseIn : ClientChannelIn c.ln (Release c) where
  enq k := (i.release k).map (overwriteDst Release.addr k)
  ready := i.releaseReady

/-- `FPGAUncore` writes `client.release` where `Uncore` writes `client.grant_ack`. -/
def grantAckIn : ClientChannelIn c.ln (GrantAck c) where
  enq k :=
    match w with
    | .uncore => (i.grantAck k).map (overwriteSrc k)
    | .fpga => (i.release k).map fun x => asGrantAck (overwriteSrc k x)
  ready := i.grantAckReady

def probeIn : MasterChannelIn c.ln c.Probe := ⟨i.probe, i.probeReady⟩

def grantIn : MasterChannelIn c.ln c.Grant := ⟨i.grant, i.grantReady⟩

/-- `client.acquire.ready`. -/
def acquireOpen (k : Fin c.ln.nClients) : Bool := s.acquire.enqReady (acquireIn i) k

/-- `client.release.ready`: in `FPGAUncore` both queues drive it, and the second one counts. -/
def releaseOpen (k : Fin c.ln.nClients) : Bool :=
  match w with
  | .uncore => s.release.enqReady (releaseIn i) k
  | .fpga => s.grantAck.enqReady (grantAckIn .fpga i) k

/-- `client.grant_ack.ready`. -/
def grantAckOpen (k : Fin c.ln.nClients) : Bool :=
  match w with
  | .uncore => s.grantAck.enqReady (grantAckIn .uncore i) k
  | .fpga => i.openReady k

def next : UncoreNet c where
  acquire := s.acquire.next (acquireIn i)
  release := s.release.next (releaseIn i)
  grantAck := s.grantAck.next (grantAckIn w i)
  probe := s.probe.next false (probeIn i)
  grant := s.grant.next true (grantIn i)

def IsReset : Prop :=
  s.acquire.IsReset ∧ s.release.IsReset ∧ s.grantAck.IsReset ∧ s.probe.IsReset ∧ s.grant.IsReset

end UncoreNet

/-! ### What the endpoints see -/

/-- What the clients sent, as they gave it, and what became of it; what the agents sent, and what
became of that. -/
structure UncoreLog (c : UncoreConf) where
  acquireSent : Fin c.ln.nClients → List (NetworkIo c.ln (Acquire c))
  releaseSent : Fin c.ln.nClients → List (NetworkIo c.ln (Release c))
  grantAckSent : Fin c.ln.nClients → List (NetworkIo c.ln (GrantAck c))
  acquire : ClientLog c.ln (Acquire c)
  release : ClientLog c.ln (Release c)
  grantAck : ClientLog c.ln (GrantAck c)
  probe : MasterLog c.ln c.Probe
  grant : MasterLog c.ln c.Grant

namespace UncoreLog

variable {c : UncoreConf}

def start (c : UncoreConf) : UncoreLog c where
  acquireSent _ := []
  releaseSent _ := []
  grantAckSent _ := []
  acquire := .start ..
  release := .start ..
  grantAck := .start ..
  probe := .start ..
  grant := .start ..

/-- The message that a port takes. -/
def handed {α : Type} (ready : Bool) (x : Option α) : List α := if ready then x.toList else []

open UncoreNet in
def note (w : Wiring) (s : UncoreNet c) (i : UncoreNetIn c) (g : UncoreLog c) : UncoreLog c where
  acquireSent k := g.acquireSent k ++ handed (s.acquireOpen i k) (i.acquire k)
  releaseSent k := g.releaseSent k ++ handed (releaseOpen w s i k) (i.release k)
  grantAckSent k := g.grantAckSent k ++ handed (grantAckOpen w s i k) (i.grantAck k)
  acquire := g.acquire.note s.acquire (acquireIn i)
  release := g.release.note s.release (releaseIn i)
  grantAck := g.grantAck.note s.grantAck (grantAckIn w i)
  probe := g.probe.note false s.probe (probeIn i)
  grant := g.grant.note true s.grant (grantIn i)

/-- The agent that an address selects. -/
def bankOf (c : UncoreConf) (addr : BitVec c.addrBits) : ℕ :=
  if 1 < c.nBanks then addr.toNat / 2 ^ c.bankIdLsb % 2 ^ log2Up c.nBanks else 0

/-- The payloads that client `k` gave for agent `d`. -/
def sentTo {ln : LogicalNetworkConf} {α : Type} (dst : NetworkIo ln α → ℕ)
    (sent : Fin ln.nClients → List (NetworkIo ln α)) (k : Fin ln.nClients) (d : Fin ln.nMasters) :
    List α :=
  ((sent k).filter fun x => dst x = d.val).map NetworkIo.payload

/-- The payloads that agent `d` got with the number of client `k`. -/
def gotFrom {ln : LogicalNetworkConf} {α : Type} (g : ClientLog ln α) (k : Fin ln.nClients)
    (d : Fin ln.nMasters) : List α :=
  ((g.arrived d).filter fun x => source x = k.val).map NetworkIo.payload

/-- What arrives at an agent has a client's number, and it is what this client sent to the agent, in
order, up to what is on its way. -/
structure ClientFaithful {ln : LogicalNetworkConf} {α : Type} (dst : NetworkIo ln α → ℕ)
    (sent : Fin ln.nClients → List (NetworkIo ln α)) (g : ClientLog ln α) : Prop where
  inOrder : ∀ k d, gotFrom g k d <+: sentTo dst sent k d
  named : ∀ d, ∀ x ∈ g.arrived d, source x < ln.nClients

/-- What arrives at a client is what the agents sent to it, each agent's messages in order, up to
what is on its way. -/
def MasterFaithful {ln : LogicalNetworkConf} {α : Type} (g : MasterLog ln α) : Prop :=
  ∀ k, ∃ rest, IsMerge (fun d => (g.sent d).filter fun x => dest x = k.val)
    ((g.queue k).left ++ rest)

/-- Every channel carries what was sent on it, and nothing else. -/
structure Faithful (g : UncoreLog c) : Prop where
  acquire : ClientFaithful (fun x => bankOf c x.payload.addr) g.acquireSent g.acquire
  release : ClientFaithful (fun x => bankOf c x.payload.addr) g.releaseSent g.release
  grantAck : ClientFaithful dest g.grantAckSent g.grantAck
  probe : MasterFaithful g.probe
  grant : MasterFaithful g.grant

end UncoreLog

namespace UncoreNet

open UncoreLog

variable {c : UncoreConf}

/-- A message for agent `d`, of all agents and of all numbers that a header holds. -/
def Named (c : UncoreConf) (d : ℕ) : Prop := d < c.nBanks ∧ d < 2 ^ c.ln.idBits

/-- A message for client `k`, whose number is one in the network too. -/
def Reaches (c : UncoreConf) (k : ℕ) : Prop := k < c.ln.nClients ∧ k + c.nBanks < 2 ^ c.ln.idBits

/-- Every message has a place to go; in `FPGAUncore` no client has a release, and none gives up a
grant acknowledgement. -/
structure Routable (w : Wiring) (i : UncoreNetIn c) : Prop where
  acquire : ∀ k x, i.acquire k = some x → Named c (bankOf c x.payload.addr)
  release : ∀ k x, i.release k = some x → w = .uncore ∧ Named c (bankOf c x.payload.addr)
  grantAck : ∀ k x, i.grantAck k = some x →
    dest x < c.nBanks ∧ (w = .uncore ∨ i.openReady k = false)
  probe : ∀ d x, i.probe d = some x → Reaches c (dest x)
  grant : ∀ d x, i.grant d = some x → Reaches c (dest x)

/-- The network next to what the endpoints see. -/
def machine (c : UncoreConf) (w : Wiring) : Machine (UncoreNet c × UncoreLog c) (UncoreNetIn c) :=
  (Machine.clocked IsReset (next w)).observe (.start c) (note w)

/-- No endpoint stops listening. -/
structure Listening (lab : ℕ → UncoreNetIn c) : Prop where
  acquire : ∀ d t, ∃ u ≥ t, (lab u).acquireReady d = true
  release : ∀ d t, ∃ u ≥ t, (lab u).releaseReady d = true
  grantAck : ∀ d t, ∃ u ≥ t, (lab u).grantAckReady d = true
  probe : ∀ k t, ∃ u ≥ t, (lab u).probeReady k = true
  grant : ∀ k t, ∃ u ≥ t, (lab u).grantReady k = true

/-- What the clients sent arrives later. -/
def ClientLive {ln : LogicalNetworkConf} {α : Type} (dst : NetworkIo ln α → ℕ)
    (sent : ℕ → Fin ln.nClients → List (NetworkIo ln α)) (log : ℕ → ClientLog ln α) : Prop :=
  ∀ t k d, ∃ u ≥ t, sentTo dst (sent t) k d <+: gotFrom (log u) k d

/-- What the masters sent arrives later. -/
def MasterLive {ln : LogicalNetworkConf} {α : Type} (log : ℕ → MasterLog ln α) : Prop :=
  ∀ t k, ∃ u ≥ t, ∃ l, IsMerge (fun d => ((log t).sent d).filter fun x => dest x = k.val) l ∧
    l <+: ((log u).queue k).left

/-- A master that keeps offering a message can send it. -/
def MasterHeard {ln : LogicalNetworkConf} {α : Type} {n : ℕ} [NeZero n] (pipe : Bool)
    (st : ℕ → MasterChannel ln α n) (inp : ℕ → MasterChannelIn ln α) : Prop :=
  ∀ d x t, (∀ u ≥ t, (∀ v, t ≤ v → v < u → (st v).taken pipe (inp v) d = false) →
    (inp u).enq d = some x) → ∃ u ≥ t, (st u).taken pipe (inp u) d = true

/-- Every message gets in, and it gets out where it should. -/
structure Live (w : Wiring) (st : ℕ → UncoreNet c × UncoreLog c) (lab : ℕ → UncoreNetIn c) :
    Prop where
  acquire : ClientLive (fun x => bankOf c x.payload.addr) (fun t => (st t).2.acquireSent)
    fun t => (st t).2.acquire
  release : ClientLive (fun x => bankOf c x.payload.addr) (fun t => (st t).2.releaseSent)
    fun t => (st t).2.release
  grantAck : ClientLive dest (fun t => (st t).2.grantAckSent) fun t => (st t).2.grantAck
  probe : MasterLive fun t => (st t).2.probe
  grant : MasterLive fun t => (st t).2.grant
  acquireOpen : ∀ k t, ∃ u ≥ t, (st u).1.acquireOpen (lab u) k = true
  releaseOpen : ∀ k t, ∃ u ≥ t, releaseOpen w (st u).1 (lab u) k = true
  grantAckOpen : w = .uncore → ∀ k t, ∃ u ≥ t, grantAckOpen w (st u).1 (lab u) k = true
  probeHeard : MasterHeard false (fun t => (st t).1.probe) fun t => probeIn (lab t)
  grantHeard : MasterHeard true (fun t => (st t).1.grant) fun t => grantIn (lab t)

/-! ### The header of a message -/

variable {α : Type} (addr : α → BitVec c.addrBits)

variable (k : Fin c.ln.nClients) (x : NetworkIo c.ln α)

theorem source_overwriteSrc :
    source (overwriteSrc k x) = k := by
  rw [source, overwriteSrc, BitVec.toNat_ofNat,
    Nat.mod_eq_of_lt (k.isLt.trans_le c.nClients_le)]

theorem source_overwriteDst : source (overwriteDst addr k x) = k := source_overwriteSrc k x

theorem dest_overwriteDst {x : NetworkIo c.ln α} (h : Named c (bankOf c (addr x.payload))) :
    dest (overwriteDst addr k x) = bankOf c (addr x.payload) := by
  rw [dest, overwriteDst, bankOf] at *
  by_cases hb : 1 < c.nBanks
  · rw [if_pos hb, convertAddrToBank, BitVec.toNat_setWidth, BitVec.extractLsb'_toNat,
      Nat.shiftRight_eq_div_pow]
    rw [if_pos hb] at h ⊢
    exact Nat.mod_eq_of_lt h.2
  · rw [if_neg hb, if_neg hb]
    rfl

/-! ### One channel

A channel carries what its clients sent, under new headers. -/

/-- The clients sent `sent`; `ow` puts the headers on, and they name the agents that `dst`
selects. -/
structure Carries {ln : LogicalNetworkConf} {α : Type}
    (ow : Fin ln.nClients → NetworkIo ln α → NetworkIo ln α) (dst : NetworkIo ln α → ℕ)
    (sent : Fin ln.nClients → List (NetworkIo ln α)) (s : ClientChannel ln α)
    (g : ClientLog ln α) : Prop where
  channel : s.Inv g
  entered : ∀ k, (g.queue k).entered = (sent k).map (ow k)
  payload : ∀ k, ∀ x ∈ sent k, (ow k x).payload = x.payload
  dest : ∀ k, ∀ x ∈ sent k, CrossbarNetwork.dest (ow k x) = dst x ∧ dst x < ln.nMasters

section Channel

variable {ln : LogicalNetworkConf} {α : Type}
  {ow : Fin ln.nClients → NetworkIo ln α → NetworkIo ln α} {dst : NetworkIo ln α → ℕ}
  {sent : Fin ln.nClients → List (NetworkIo ln α)} {s : ClientChannel ln α} {g : ClientLog ln α}

theorem Carries.sentTo_eq (h : Carries ow dst sent s g) (k : Fin ln.nClients)
    (d : Fin ln.nMasters) : sentTo dst sent k d =
      (((g.queue k).entered.filter fun x => CrossbarNetwork.dest x = d.val)).map
        NetworkIo.payload := by
  have hfilter : (sent k).filter (fun x => dst x = d.val) =
      (sent k).filter ((fun x => decide (CrossbarNetwork.dest x = d.val)) ∘ ow k) :=
    List.filter_congr fun x hx => by rw [Function.comp_apply, (h.dest k x hx).1]
  rw [sentTo, h.entered, List.filter_map, List.map_map, hfilter]
  exact List.map_congr_left fun x hx => (h.payload k x (List.mem_of_mem_filter hx)).symm

theorem gotFrom_eq (h : s.Inv g) (k : Fin ln.nClients) (d : Fin ln.nMasters) :
    gotFrom g k d = ((g.queue k).left.filter fun x => CrossbarNetwork.dest x = d.val).map
      NetworkIo.payload := by
  rw [gotFrom, h.routed]

theorem Carries.faithful (h : Carries ow dst sent s g) : ClientFaithful dst sent g where
  inOrder k d := by
    rw [h.sentTo_eq, gotFrom_eq h.channel, h.channel.conserves k]
    exact ((List.prefix_append ..).filter _).map _
  named := h.channel.named

variable {i : ClientChannelIn ln α} {offer : Option (NetworkIo ln α)}

theorem Carries.next (h : Carries ow dst sent s g) {new : Fin ln.nClients → List (NetworkIo ln α)}
    (hsrc : ∀ k x, i.enq k = some x → source x = k) (hnew : ∀ k, s.entered i k = (new k).map (ow k))
    (hpayload : ∀ k, ∀ x ∈ new k, (ow k x).payload = x.payload)
    (hdest : ∀ k, ∀ x ∈ new k, CrossbarNetwork.dest (ow k x) = dst x ∧ dst x < ln.nMasters) :
    Carries ow dst (fun k => sent k ++ new k) (s.next i) (g.note s i) where
  channel := h.channel.next hsrc
  entered k := by
    show (g.queue k).entered ++ s.entered i k = _
    rw [h.entered, hnew, List.map_append]
  payload k x hx := (List.mem_append.mp hx).elim (h.payload k x) (hpayload k x)
  dest k x hx := (List.mem_append.mp hx).elim (h.dest k x) (hdest k x)

theorem entered_eq_handed {k : Fin ln.nClients} (h : i.enq k = offer.map (ow k)) :
    s.entered i k = (handed (s.enqReady i k) offer).map (ow k) := by
  rw [ClientChannel.entered, Queue.entered, handed, ClientChannel.enqReady]
  split
  · rw [ClientChannel.queueIn, h]
    cases offer <;> rfl
  · rfl

theorem entered_of_none {k : Fin ln.nClients} (h : i.enq k = none) :
    s.entered i k = [] := by
  rw [ClientChannel.entered, Queue.entered, ClientChannel.queueIn, h]
  split <;> rfl

theorem mem_handed {ready : Bool} {x : NetworkIo ln α}
    (h : x ∈ handed ready offer) : ready = true ∧ offer = some x := by
  rw [handed] at h
  split at h
  · exact ⟨by assumption, Option.mem_toList.mp h⟩
  · cases h

/-- **What the clients send arrives**, if the agents are ready again and again. -/
theorem clientLive {st : ℕ → ClientChannel ln α} {inp : ℕ → ClientChannelIn ln α}
    {log : ℕ → ClientLog ln α} {sent : ℕ → Fin ln.nClients → List (NetworkIo ln α)}
    (hst : ∀ t, st (t + 1) = (st t).next (inp t))
    (hlog : ∀ t, log (t + 1) = (log t).note (st t) (inp t))
    (h : ∀ t, Carries ow dst (sent t) (st t) (log t))
    (hready : ∀ d t, ∃ u ≥ t, (inp u).ready d = true) :
    ClientLive dst sent log ∧ ∀ k t, ∃ u ≥ t, (st u).enqReady (inp u) k = true := by
  have hinv : ∀ t, (st t).Inv (log t) := fun t => (h t).channel
  have hdest : ∀ t k, ∀ x ∈ ((log t).queue k).entered, CrossbarNetwork.dest x < ln.nMasters := by
    intro t k x hx
    rw [(h t).entered] at hx
    obtain ⟨y, hy, rfl⟩ := List.mem_map.mp hx
    rw [((h t).dest k y hy).1]
    exact ((h t).dest k y hy).2
  refine ⟨fun t k d => ?_, ClientChannel.eventually_room hst hlog hinv hdest hready⟩
  obtain ⟨u, hu, hall⟩ := ClientChannel.delivers hst hlog hinv hdest hready k t
  refine ⟨u, hu, ?_⟩
  rw [(h t).sentTo_eq, gotFrom_eq (hinv u)]
  exact (hall.filter _).map _

variable {n : ℕ} [NeZero n] {pipe : Bool}

theorem masterFaithful {s : MasterChannel ln α n} {g : MasterLog ln α} (h : s.Inv g) :
    MasterFaithful g := by
  intro k
  refine ⟨(s.queue k).held, ?_⟩
  rw [← h.conserves k]
  exact h.routed k

/-- **What the masters send arrives**, if the clients are ready again and again. -/
theorem masterLive {st : ℕ → MasterChannel ln α n} {inp : ℕ → MasterChannelIn ln α}
    {log : ℕ → MasterLog ln α} (hst : ∀ t, st (t + 1) = (st t).next pipe (inp t))
    (hlog : ∀ t, log (t + 1) = (log t).note pipe (st t) (inp t)) (h : ∀ t, (st t).Inv (log t))
    (hnamed : ∀ t d x, (inp t).enq d = some x →
      CrossbarNetwork.dest x < ln.nClients ∧ MasterChannel.Fits x)
    (hready : ∀ k t, ∃ u ≥ t, (inp u).ready k = true) :
    MasterLive log ∧ MasterHeard pipe st inp := by
  constructor
  · intro t k
    obtain ⟨u, hu, hall⟩ := MasterChannel.delivers hlog h (hready k) t
    exact ⟨u, hu, _, (h t).routed k, hall⟩
  · intro d x t hoffer
    have hx : (inp t).enq d = some x :=
      hoffer t le_rfl fun v hv hvt => absurd hvt (not_lt.mpr hv)
    obtain ⟨hk, hfits⟩ := hnamed t d x hx
    exact MasterChannel.accepts hst (k := ⟨_, hk⟩) (hready _) rfl hfits hoffer

end Channel

/-! ### All channels -/

/-- What is known of the network and of what the endpoints saw. -/
structure Inv (s : UncoreNet c) (g : UncoreLog c) : Prop where
  acquire : Carries (overwriteDst Acquire.addr) (fun x => bankOf c x.payload.addr) g.acquireSent
    s.acquire g.acquire
  release : Carries (overwriteDst Release.addr) (fun x => bankOf c x.payload.addr) g.releaseSent
    s.release g.release
  grantAck : Carries overwriteSrc dest g.grantAckSent s.grantAck g.grantAck
  probe : s.probe.Inv g.probe
  grant : s.grant.Inv g.grant

variable {w : Wiring} {s : UncoreNet c} {i : UncoreNetIn c} {g : UncoreLog c}

theorem Carries.start {ln : LogicalNetworkConf} {α : Type}
    {ow : Fin ln.nClients → NetworkIo ln α → NetworkIo ln α} {dst : NetworkIo ln α → ℕ}
    {s : ClientChannel ln α} (h : s.IsReset) :
    Carries ow dst (fun _ => []) s (ClientLog.start ln α) where
  channel := .start h
  entered _ := rfl
  payload _ _ hx := nomatch hx
  dest _ _ hx := nomatch hx

theorem Inv.start (h : s.IsReset) : Inv s (.start c) where
  acquire := .start h.1
  release := .start h.2.1
  grantAck := .start h.2.2.1
  probe := .start h.2.2.2.1
  grant := .start h.2.2.2.2

theorem acquire_next (h : Inv s g) (hok : Routable w i) :
    Carries (overwriteDst Acquire.addr) (fun x => bankOf c x.payload.addr)
      (note w s i g).acquireSent (next w s i).acquire (note w s i g).acquire := by
  refine h.acquire.next (fun k x hx => ?_) (fun k => entered_eq_handed rfl)
    (fun _ _ _ => rfl) fun k x hx => ?_
  · obtain ⟨y, -, rfl⟩ := Option.map_eq_some_iff.mp hx
    exact source_overwriteDst ..
  · have hnamed := hok.acquire k x (mem_handed hx).2
    exact ⟨dest_overwriteDst _ k hnamed, hnamed.1⟩

/-- The clients of `FPGAUncore` have no releases. -/
theorem release_eq_none (hok : Routable .fpga i) (k : Fin c.ln.nClients) : i.release k = none := by
  rw [Option.eq_none_iff_forall_ne_some]
  intro x hx
  cases (hok.release k x hx).1

theorem release_next (h : Inv s g) (hok : Routable w i) :
    Carries (overwriteDst Release.addr) (fun x => bankOf c x.payload.addr)
      (note w s i g).releaseSent (next w s i).release (note w s i g).release := by
  refine h.release.next (fun k x hx => ?_) (fun k => ?_) (fun _ _ _ => rfl) fun k x hx => ?_
  · obtain ⟨y, -, rfl⟩ := Option.map_eq_some_iff.mp hx
    exact source_overwriteDst ..
  · cases w with
    | uncore => exact entered_eq_handed rfl
    | fpga =>
      have hnone := release_eq_none hok k
      have hidle : (releaseIn i).enq k = none := Option.map_eq_none_iff.mpr hnone
      rw [entered_of_none hidle, hnone, handed]
      split <;> rfl
  · have hnamed := (hok.release k x (mem_handed hx).2).2
    exact ⟨dest_overwriteDst _ k hnamed, hnamed.1⟩

theorem grantAck_next (h : Inv s g) (hok : Routable w i) :
    Carries overwriteSrc dest (note w s i g).grantAckSent (next w s i).grantAck
      (note w s i g).grantAck := by
  refine h.grantAck.next (fun k x hx => ?_) (fun k => ?_) (fun _ _ _ => rfl) fun k x hx => ?_
  · cases w with
    | uncore =>
      obtain ⟨y, -, rfl⟩ := Option.map_eq_some_iff.mp hx
      exact source_overwriteSrc ..
    | fpga =>
      obtain ⟨y, hy, -⟩ := Option.map_eq_some_iff.mp hx
      rw [release_eq_none hok k] at hy
      cases hy
  · cases w with
    | uncore => exact entered_eq_handed rfl
    | fpga =>
      have hno : handed (grantAckOpen .fpga s i k) (i.grantAck k) = [] := by
        refine List.eq_nil_iff_forall_not_mem.mpr fun x hx => ?_
        obtain ⟨hopen, hx⟩ := mem_handed hx
        rcases (hok.grantAck k x hx).2 with hw | hclosed
        · cases hw
        · rw [grantAckOpen, hclosed] at hopen
          cases hopen
      have hidle : (grantAckIn .fpga i).enq k = none :=
        Option.map_eq_none_iff.mpr (release_eq_none hok k)
      rw [entered_of_none hidle, hno]
      rfl
  · exact ⟨rfl, (hok.grantAck k x (mem_handed hx).2).1⟩

theorem Inv.next (h : Inv s g) (hok : Routable w i) : Inv (next w s i) (note w s i g) where
  acquire := acquire_next h hok
  release := release_next h hok
  grantAck := grantAck_next h hok
  probe := h.probe.next fun d x hx => (hok.probe d x hx).2
  grant := h.grant.next fun d x hx => (hok.grant d x hx).2

theorem Inv.faithful (h : Inv s g) : g.Faithful where
  acquire := h.acquire.faithful
  release := h.release.faithful
  grantAck := h.grantAck.faithful
  probe := masterFaithful h.probe
  grant := masterFaithful h.grant

/-- What every run keeps, as long as the messages have a place to go. -/
theorem reachable_inv : ∀ x, ((machine c w).restrict fun _ i => Routable w i).Reachable x →
    Inv x.1 x.2 := by
  refine Machine.invariant ?_ ?_
  · rintro ⟨s, g⟩ ⟨hs, rfl⟩
    exact .start hs
  · rintro ⟨s, g⟩ i ⟨s', g'⟩ - h ⟨hok, rfl, rfl⟩
    exact h.next hok

/-- Where every endpoint goes on listening, every message gets through. -/
theorem live {st : ℕ → UncoreNet c × UncoreLog c} {lab : ℕ → UncoreNetIn c}
    (hrun : ((machine c w).restrict fun _ i => Routable w i).Run st lab)
    (hlisten : Listening lab) : Live w st lab := by
  have hinv : ∀ t, Inv (st t).1 (st t).2 := fun t => reachable_inv _ (hrun.reachable t)
  have hok : ∀ t, Routable w (lab t) := fun t => (hrun.step t).1
  have hst : ∀ t, (st (t + 1)).1 = next w (st t).1 (lab t) := fun t => (hrun.step t).2.1
  have hlog : ∀ t, (st (t + 1)).2 = note w (st t).1 (lab t) (st t).2 :=
    fun t => (hrun.step t).2.2
  obtain ⟨hacquire, hacquireOpen⟩ := clientLive (fun t => congrArg UncoreNet.acquire (hst t))
    (fun t => congrArg UncoreLog.acquire (hlog t)) (fun t => (hinv t).acquire) hlisten.acquire
  obtain ⟨hrelease, hreleaseOpen⟩ := clientLive (fun t => congrArg UncoreNet.release (hst t))
    (fun t => congrArg UncoreLog.release (hlog t)) (fun t => (hinv t).release) hlisten.release
  obtain ⟨hgrantAck, hgrantAckOpen⟩ := clientLive (fun t => congrArg UncoreNet.grantAck (hst t))
    (fun t => congrArg UncoreLog.grantAck (hlog t)) (fun t => (hinv t).grantAck) hlisten.grantAck
  obtain ⟨hprobe, hprobeHeard⟩ := masterLive (fun t => congrArg UncoreNet.probe (hst t))
    (fun t => congrArg UncoreLog.probe (hlog t)) (fun t => (hinv t).probe)
    (fun t d x hx => (hok t).probe d x hx) hlisten.probe
  obtain ⟨hgrant, hgrantHeard⟩ := masterLive (fun t => congrArg UncoreNet.grant (hst t))
    (fun t => congrArg UncoreLog.grant (hlog t)) (fun t => (hinv t).grant)
    (fun t d x hx => (hok t).grant d x hx) hlisten.grant
  refine ⟨hacquire, hrelease, hgrantAck, hprobe, hgrant, hacquireOpen, ?_, ?_, hprobeHeard,
    hgrantHeard⟩
  · cases w with
    | uncore => exact hreleaseOpen
    | fpga => exact hgrantAckOpen
  · rintro rfl
    exact hgrantAckOpen

end UncoreNet

/-- **The network preserves every message** in both wirings, as long as every message has a place to
go, and in `FPGAUncore` no client has a release or gives up a grant acknowledgement: what arrives
was sent, on its channel, once and in order, and if no endpoint stops listening, all of it
arrives. -/
theorem routing_faithful (c : UncoreConf) (w : Wiring) :
    (∀ x, ((UncoreNet.machine c w).restrict fun _ i => UncoreNet.Routable w i).Reachable x →
      x.2.Faithful) ∧
    ∀ st lab, ((UncoreNet.machine c w).restrict fun _ i => UncoreNet.Routable w i).Run st lab →
      UncoreNet.Listening lab → UncoreNet.Live w st lab :=
  ⟨fun x hx => (UncoreNet.reachable_inv x hx).faithful, fun _ _ => UncoreNet.live⟩

/-! ### A release in `FPGAUncore` -/

namespace FPGARelease

/-- One tile and one bank. -/
def conf : UncoreConf where
  nTiles := 1
  nBanks := 1
  bankIdLsb := 5
  addrBits := 26
  masterXactIdBits := 3
  AcquireBody := Unit
  ReleaseBody := Unit
  Probe := Unit
  Grant := Unit

local instance neZeroTwo : NeZero 2 := ⟨Nat.succ_ne_zero 1⟩

theorem three_pos : 0 < 3 := Nat.zero_lt_succ 2

/-- Nothing is queued; the memories of the queues hold anything. -/
def start : UncoreNet conf where
  acquire := ⟨fun _ => ⟨⟨0, 0, false⟩, fun _ => ⟨0, 0, ⟨0, ()⟩⟩⟩, fun _ => ⟨0, three_pos⟩⟩
  release :=
    ⟨fun _ => ⟨⟨0, 0, false⟩, fun _ => ⟨0, 0, ⟨0, 0, ()⟩⟩⟩, fun _ => ⟨0, three_pos⟩⟩
  grantAck := ⟨fun _ => ⟨⟨0, 0, false⟩, fun _ => ⟨0, 0, ⟨0⟩⟩⟩, fun _ => ⟨0, three_pos⟩⟩
  probe := ⟨fun _ => ⟨⟨0, 0, false⟩, fun _ => ⟨0, 0, ()⟩⟩, fun _ => ⟨0, three_pos⟩⟩
  grant := ⟨fun _ => ⟨⟨0, 0, false⟩, fun _ => ⟨0, 0, ()⟩⟩, fun _ => ⟨0, three_pos⟩⟩

/-- The tile has a release, or nothing; everybody listens. -/
def cycle (release : Option (NetworkIo conf.ln (Release conf))) : UncoreNetIn conf where
  acquire _ := none
  release k := if k.val = 0 then release else none
  grantAck _ := none
  probeReady _ := true
  grantReady _ := true
  acquireReady _ := true
  releaseReady _ := true
  grantAckReady _ := true
  probe _ := none
  grant _ := none
  openReady _ := false

def tile : Fin conf.ln.nClients := ⟨0, Nat.zero_lt_succ 1⟩

def bank : Fin conf.ln.nMasters := ⟨0, Nat.zero_lt_succ 0⟩

/-- One release, and the cycle in which it goes through the network. -/
def run : List (UncoreNetIn conf) := [cycle (some ⟨0, 0, ⟨0, 5, ()⟩⟩), cycle none]

theorem start_isReset : start.IsReset := by
  refine ⟨⟨fun _ => rfl, fun _ => rfl⟩, ⟨fun _ => rfl, fun _ => rfl⟩, ⟨fun _ => rfl, fun _ => rfl⟩,
    ⟨fun _ => rfl, fun _ => rfl⟩, fun _ => rfl, fun _ => rfl⟩

end FPGARelease

open FPGARelease in
/-- A release of `FPGAUncore` arrives as a grant acknowledgement that nobody sent. -/
theorem fpgaUncore_sends_acks :
    ¬ ∀ c x, (UncoreNet.machine c .fpga).Reachable x → x.2.Faithful := by
  intro h
  have hstart : (UncoreNet.machine conf .fpga).Reachable (start, .start conf) :=
    .init ⟨start_isReset, rfl⟩
  have hreach := Machine.reachable_cycles hstart run
  have hprefix := (h conf _ hreach).grantAck.inOrder tile bank
  have hgot : UncoreLog.gotFrom (Machine.cycles (UncoreNet.next .fpga) (UncoreLog.note .fpga) run
      (start, .start conf)).2.grantAck tile bank = [⟨5⟩] := by decide
  have hsent : UncoreLog.sentTo dest (Machine.cycles (UncoreNet.next .fpga) (UncoreLog.note .fpga)
      run (start, .start conf)).2.grantAckSent tile bank = [] := by decide
  rw [hgot, hsent] at hprefix
  cases List.prefix_nil.mp hprefix

end Uncore

end RiscvSoc
