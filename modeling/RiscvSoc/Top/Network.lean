import RiscvSoc.Lib.Crossbar
import RiscvSoc.Lib.Queue

/-!
# The network between tiles and coherence agents

`ReferenceChipCrossbarNetwork` joins the clients (the tiles and the host interface) and the masters
(the coherence agents, one a bank) by one crossbar for every channel. The masters come first among
the endpoints of a crossbar. A header names a client or a master by its own index; on the way in,
the shims add the number of masters to the index of a client, and on the way out they take it off
again.

A channel goes from the clients to the masters or the other way. In front of every client's port is
a queue: a message of a client waits in it before the crossbar, a message to a client behind it.
-/

namespace RiscvSoc

open Crossbar

structure LogicalNetworkConf where
  idBits : ℕ
  nMasters : ℕ
  nClients : ℕ

/-- `LogicalNetworkIO` and `PhysicalNetworkIO`, which differ in what the header counts. -/
structure NetworkIo (ln : LogicalNetworkConf) (α : Type) where
  src : BitVec ln.idBits
  dst : BitVec ln.idBits
  payload : α
  deriving DecidableEq

namespace CrossbarNetwork

variable {ln : LogicalNetworkConf} {α : Type} (x : NetworkIo ln α)

def ClientToCrossbarShim : NetworkIo ln α :=
  { x with src := x.src + BitVec.ofNat ln.idBits ln.nMasters }

def CrossbarToMasterShim : NetworkIo ln α :=
  { x with src := x.src - BitVec.ofNat ln.idBits ln.nMasters }

def MasterToCrossbarShim : NetworkIo ln α :=
  { x with dst := x.dst + BitVec.ofNat ln.idBits ln.nMasters }

def CrossbarToClientShim : NetworkIo ln α :=
  { x with dst := x.dst - BitVec.ofNat ln.idBits ln.nMasters }

/-- The endpoint that the header of a message names. -/
def dest : ℕ := x.dst.toNat

/-- The endpoint that it comes from. -/
def source : ℕ := x.src.toNat

@[simp]
theorem master_of_client : CrossbarToMasterShim (ClientToCrossbarShim x) = x := by
  rw [CrossbarToMasterShim, ClientToCrossbarShim, BitVec.add_sub_cancel]

@[simp]
theorem client_of_master : CrossbarToClientShim (MasterToCrossbarShim x) = x := by
  rw [CrossbarToClientShim, MasterToCrossbarShim, BitVec.add_sub_cancel]

/-- A client's index and the number of masters fit into a header together. -/
theorem dest_master {x : NetworkIo ln α} (h : dest x + ln.nMasters < 2 ^ ln.idBits) :
    dest (MasterToCrossbarShim x) = ln.nMasters + dest x := by
  rw [dest] at h
  have hm : ln.nMasters < 2 ^ ln.idBits := (Nat.le_add_left ..).trans_lt h
  rw [dest, dest, MasterToCrossbarShim, BitVec.toNat_add, BitVec.toNat_ofNat,
    Nat.mod_eq_of_lt hm, Nat.mod_eq_of_lt h, Nat.add_comm]

end CrossbarNetwork

open CrossbarNetwork

/-! ### From the clients to the masters -/

/-- A channel from the clients: their queues, and `last_grant` of the arbiters. -/
structure ClientChannel (ln : LogicalNetworkConf) (α : Type) where
  queue : Fin ln.nClients → Queue (NetworkIo ln α) 2
  lastGrant : Fin (ln.nMasters + ln.nClients) → Fin (ln.nMasters + ln.nClients)

/-- What the queues are offered, and which masters are ready. -/
structure ClientChannelIn (ln : LogicalNetworkConf) (α : Type) where
  enq : Fin ln.nClients → Option (NetworkIo ln α)
  ready : Fin ln.nMasters → Bool

namespace ClientChannel

variable {ln : LogicalNetworkConf} {α : Type} (s : ClientChannel ln α) (i : ClientChannelIn ln α)

def IsReset : Prop := (∀ k, (s.queue k).IsReset) ∧ ∀ d, (s.lastGrant d).val = 0

/-- What the queue of a client shows. -/
def head (k : Fin ln.nClients) : Option (NetworkIo ln α) := (s.queue k).deq false ⟨i.enq k, false⟩

/-- `phys_in`: nothing comes from the masters. -/
def physIn : Fin (ln.nMasters + ln.nClients) → Option (NetworkIo ln α) :=
  Fin.addCases (fun _ => none) fun k => (s.head i k).map ClientToCrossbarShim

/-- `phys_out.ready`: no client listens. -/
def physReady : Fin (ln.nMasters + ln.nClients) → Bool :=
  Fin.addCases i.ready fun _ => false

/-- The crossbar takes what the queue of client `k` shows. -/
def taken (k : Fin ln.nClients) : Bool :=
  Crossbar.taken dest s.lastGrant (s.physIn i) (physReady i) (Fin.natAdd ln.nMasters k)

def queueIn (k : Fin ln.nClients) : QueueInput (NetworkIo ln α) := ⟨i.enq k, s.taken i k⟩

/-- What client `k` is told about its port. -/
def enqReady (k : Fin ln.nClients) : Bool := (s.queue k).enqReady false (s.queueIn i k)

def next : ClientChannel ln α where
  queue k := (s.queue k).next false false (s.queueIn i k)
  lastGrant := Crossbar.next dest s.lastGrant (s.physIn i) (physReady i)

def entered (k : Fin ln.nClients) : List (NetworkIo ln α) :=
  (s.queue k).entered false (s.queueIn i k)

def left (k : Fin ln.nClients) : List (NetworkIo ln α) := (s.queue k).left false (s.queueIn i k)

/-- What master `d` takes in. -/
def arrived (d : Fin ln.nMasters) : List (NetworkIo ln α) :=
  (Crossbar.arrived dest s.lastGrant (s.physIn i) (physReady i)
    (Fin.castAdd ln.nClients d)).map CrossbarToMasterShim

end ClientChannel

/-- What went through the queues of a channel from the clients, and what came to the masters. -/
structure ClientLog (ln : LogicalNetworkConf) (α : Type) where
  queue : Fin ln.nClients → FifoLog (NetworkIo ln α)
  arrived : Fin ln.nMasters → List (NetworkIo ln α)

def ClientLog.start (ln : LogicalNetworkConf) (α : Type) : ClientLog ln α :=
  ⟨fun _ => ⟨[], []⟩, fun _ => []⟩

def ClientLog.note {ln : LogicalNetworkConf} {α : Type} (g : ClientLog ln α)
    (s : ClientChannel ln α) (i : ClientChannelIn ln α) : ClientLog ln α where
  queue k := (g.queue k).note (s.entered i k) (s.left i k)
  arrived d := g.arrived d ++ s.arrived i d

namespace ClientChannel

variable {ln : LogicalNetworkConf} {α : Type}

/-- What is known of a channel from the clients. -/
structure Inv (s : ClientChannel ln α) (g : ClientLog ln α) : Prop where
  conserves : ∀ k, (g.queue k).Conserves (s.queue k).held
  /-- The headers name the sender. -/
  source : ∀ k, ∀ x ∈ (g.queue k).entered, CrossbarNetwork.source x = k
  routed : ∀ k d, (g.queue k).left.filter (fun x => dest x = d.val) =
    (g.arrived d).filter fun x => CrossbarNetwork.source x = k.val
  named : ∀ d, ∀ x ∈ g.arrived d, CrossbarNetwork.source x < ln.nClients

variable {s : ClientChannel ln α} {i : ClientChannelIn ln α} {g : ClientLog ln α}

theorem Inv.start (h : s.IsReset) : s.Inv (ClientLog.start ln α) where
  conserves k := (h.1 k).held.symm
  source _ _ hx := nomatch hx
  routed _ _ := rfl
  named _ _ hx := nomatch hx

variable (k : Fin ln.nClients) (d : Fin ln.nMasters)

theorem head_eq : s.head i k = (s.queue k).held.head? := by
  rw [head, Queue.deq_eq_head, if_neg (by simp), List.append_nil]

theorem left_eq :
    s.left i k = if s.taken i k then (s.head i k).toList else [] := by
  rw [left, Queue.left, Queue.deq_eq_head, if_neg Bool.false_ne_true, List.append_nil, head_eq]
  rfl

@[simp]
theorem physIn_client :
    s.physIn i (Fin.natAdd ln.nMasters k) = (s.head i k).map ClientToCrossbarShim := by
  rw [physIn, Fin.addCases_right]

@[simp]
theorem physIn_master : s.physIn i (Fin.castAdd ln.nClients d) = none := by
  rw [physIn, Fin.addCases_left]

/-- The input that a master's output serves, as the number of a client. -/
def served (s : ClientChannel ln α) (i : ClientChannelIn ln α) (d : Fin ln.nMasters) :
    Option (Fin (ln.nMasters + ln.nClients)) :=
  Crossbar.source dest s.lastGrant (s.physIn i) (physReady i) (Fin.castAdd ln.nClients d)

theorem left_filter :
    (s.left i k).filter (fun x => dest x = d.val) =
      if s.served i d = some (Fin.natAdd ln.nMasters k) then (s.head i k).toList else [] := by
  have hleft : s.left i k = (Crossbar.left dest s.lastGrant (s.physIn i) (physReady i)
      (Fin.natAdd ln.nMasters k)).map CrossbarToMasterShim := by
    rw [left_eq, Crossbar.left, taken, physIn_client]
    split <;> cases s.head i k <;> simp
  have hfilter : (Crossbar.left dest s.lastGrant (s.physIn i) (physReady i)
      (Fin.natAdd ln.nMasters k)).filter (fun x => dest x = d.val) =
      if s.served i d = some (Fin.natAdd ln.nMasters k) then
        (s.physIn i (Fin.natAdd ln.nMasters k)).toList else [] :=
    Crossbar.left_filter (Fin.castAdd ln.nClients d) (Fin.natAdd ln.nMasters k)
  rw [hleft, List.filter_map]
  refine (congrArg (List.map CrossbarToMasterShim) hfilter).trans ?_
  rw [physIn_client]
  split <;> cases s.head i k <;> simp

theorem arrived_filter (hsrc : ∀ k x, s.head i k = some x → CrossbarNetwork.source x = k)
    (k : Fin ln.nClients) (d : Fin ln.nMasters) :
    (s.arrived i d).filter (fun x => CrossbarNetwork.source x = k.val) =
      if s.served i d = some (Fin.natAdd ln.nMasters k) then (s.head i k).toList else [] := by
  rw [arrived]
  cases hs : s.served i d with
  | none =>
    rw [arrived_of_source_none hs]
    simp
  | some j =>
    obtain ⟨y, hy, -⟩ := exists_of_source hs
    rw [arrived_of_source hs]
    induction j using Fin.addCases with
    | left e =>
      rw [physIn_master] at hy
      cases hy
    | right k' =>
      rw [physIn_client] at hy ⊢
      obtain ⟨x, hx, rfl⟩ := Option.map_eq_some_iff.mp hy
      rw [hx]
      by_cases hk : k' = k
      · subst hk
        simp [hx, hsrc k' x hx]
      · have hne : Fin.natAdd ln.nMasters k' ≠ Fin.natAdd ln.nMasters k :=
          fun h => hk ((Fin.natAdd_inj ..).mp h)
        have hsrc' : CrossbarNetwork.source x ≠ k := by
          rw [hsrc k' x hx]
          exact fun h => hk (Fin.ext h)
        simp [hne, hsrc']

theorem arrived_named {d : Fin ln.nMasters}
    (hsrc : ∀ k x, s.head i k = some x → CrossbarNetwork.source x = k) :
    ∀ x ∈ s.arrived i d, CrossbarNetwork.source x < ln.nClients := by
  intro x hx
  rw [arrived] at hx
  cases hs : s.served i d with
  | none =>
    rw [arrived_of_source_none hs] at hx
    cases hx
  | some j =>
    obtain ⟨y, hy, -⟩ := exists_of_source hs
    rw [arrived_of_source hs] at hx
    induction j using Fin.addCases with
    | left e =>
      rw [physIn_master] at hy
      cases hy
    | right k =>
      rw [physIn_client] at hx
      cases hh : s.head i k with
      | none =>
        rw [hh] at hx
        cases hx
      | some z =>
        simp only [hh, Option.map_some, Option.toList_some, List.map_cons, List.map_nil,
          master_of_client, List.mem_singleton] at hx
        rw [hx, hsrc k z hh]
        exact k.isLt

/-- **One cycle of a channel from the clients.** -/
theorem Inv.next (h : s.Inv g) (hsrc : ∀ k x, i.enq k = some x → CrossbarNetwork.source x = k) :
    (s.next i).Inv (g.note s i) := by
  have hconserves : ∀ k, ((g.note s i).queue k).Conserves ((s.next i).queue k).held :=
    fun k => (h.conserves k).note Queue.step
  have hheld : ∀ k, ∀ x ∈ (s.queue k).held, CrossbarNetwork.source x = k := by
    intro k x hx
    refine h.source k x ?_
    rw [h.conserves k]
    exact List.mem_append_right _ hx
  have hhead : ∀ k x, s.head i k = some x → CrossbarNetwork.source x = k := by
    intro k x hx
    rw [head_eq] at hx
    exact hheld k x (List.mem_of_mem_head? hx)
  refine ⟨hconserves, ?_, ?_, ?_⟩
  · intro k x hx
    rcases List.mem_append.mp hx with hold | hnew
    · exact h.source k x hold
    · rw [entered, Queue.entered] at hnew
      split at hnew
      · exact hsrc k x (Option.mem_toList.mp hnew)
      · cases hnew
  · intro k d
    show (((g.queue k).left ++ s.left i k).filter _) = ((g.arrived d ++ s.arrived i d).filter _)
    rw [List.filter_append, List.filter_append, h.routed, left_filter, arrived_filter hhead]
  · intro d x hx
    rcases List.mem_append.mp hx with hold | hnew
    · exact h.named d x hold
    · exact arrived_named hhead x hnew

theorem head_next {k : Fin ln.nClients} {x : NetworkIo ln α} {i' : ClientChannelIn ln α}
    (hx : s.head i k = some x) (hstay : s.taken i k = false) :
    (s.next i).head i' k = some x := by
  have hstep : FifoStep (s.queue k).held (s.entered i k) (s.left i k) ((s.next i).queue k).held :=
    Queue.step
  rw [FifoStep, left_eq, hstay, if_neg (by simp), List.nil_append] at hstep
  rw [head_eq] at hx ⊢
  rw [← hstep, List.head?_append, hx, Option.some_or]

section Run

variable {st : ℕ → ClientChannel ln α} {inp : ℕ → ClientChannelIn ln α} {log : ℕ → ClientLog ln α}
  (hst : ∀ t, st (t + 1) = (st t).next (inp t))
  (hlog : ∀ t, log (t + 1) = (log t).note (st t) (inp t)) (hinv : ∀ t, (st t).Inv (log t))
  (hdest : ∀ t k, ∀ x ∈ ((log t).queue k).entered, dest x < ln.nMasters)
  (hready : ∀ d t, ∃ u ≥ t, (inp u).ready d = true)
include hst hlog hinv hdest hready

/-- **Every message of a client comes to the master it names**, if the masters are ready again and
again. -/
theorem delivers (k : Fin ln.nClients) (t : ℕ) :
    ∃ u ≥ t, ((log t).queue k).entered <+: ((log u).queue k).left := by
  have hnote : ∀ t, ∃ entered left,
      (log (t + 1)).queue k = ((log t).queue k).note entered left :=
    fun t => ⟨(st t).entered (inp t) k, (st t).left (inp t) k, by rw [hlog t]; rfl⟩
  refine FifoLog.delivers (fun t => (log t).queue k) (fun t => ((st t).queue k).held) hnote
    (fun t => (hinv t).conserves k) (fun t hheld => ?_) t
  obtain ⟨x, rest, hcons⟩ := List.exists_cons_of_ne_nil hheld
  have hhead : ∀ i, (st t).head i k = some x := by
    intro i
    rw [head_eq, hcons]
    rfl
  have hd : dest x < ln.nMasters := by
    refine hdest t k x ?_
    rw [(hinv t).conserves k, hcons]
    simp
  have hstays : ∀ u ≥ t, (∀ v, t ≤ v → v < u → (st v).taken (inp v) k = false) →
      ∀ i, (st u).head i k = some x := by
    intro u hu
    induction u, hu using Nat.le_induction with
    | base => exact fun _ => hhead
    | succ u hu ih =>
      intro hno i
      rw [hst u]
      exact head_next (ih (fun v hv hvu => hno v hv (hvu.trans u.lt_succ_self)) (inp u))
        (hno u hu u.lt_succ_self)
  obtain ⟨u, hu, hin, htaken, -⟩ := eventually_taken (fun u => (st u).lastGrant)
    (fun u => (st u).physIn (inp u)) (fun u => physReady (inp u))
    (fun u => congrArg ClientChannel.lastGrant (hst u)) (Fin.castAdd ln.nClients ⟨dest x, hd⟩)
    (fun v => by
      obtain ⟨w, hw, hr⟩ := hready ⟨dest x, hd⟩ v
      exact ⟨w, hw, by rw [physReady, Fin.addCases_left, hr]⟩)
    (x := ClientToCrossbarShim x) rfl (Fin.natAdd ln.nMasters k)
    (fun u hu hno => by rw [physIn_client, hstays u hu hno]; rfl)
  have hleft : ((log (u + 1)).queue k).left = ((log u).queue k).left ++ [x] := by
    rw [physIn_client] at hin
    obtain ⟨y, hy, hyx⟩ := Option.map_eq_some_iff.mp hin
    have hyx' : y = x := by
      have := congrArg CrossbarToMasterShim hyx
      rwa [master_of_client, master_of_client] at this
    rw [hlog u]
    show _ ++ (st u).left (inp u) k = _
    rw [left_eq, taken, htaken, if_pos rfl, hy, hyx']
    rfl
  refine ⟨u + 1, by omega, ?_⟩
  have hle := (FifoLog.le_of_note (fun t => (log t).queue k) hnote hu).2.length_le
  rw [hleft, List.length_append, List.length_singleton]
  exact Nat.lt_succ_of_le hle

theorem eventually_room (k : Fin ln.nClients) (t : ℕ) :
    ∃ u ≥ t, (st u).enqReady (inp u) k = true := by
  by_contra hnever
  have hfull : ∀ u ≥ t, (st u).enqReady (inp u) k = false :=
    fun u hu => Bool.eq_false_iff.mpr fun h => hnever ⟨u, hu, h⟩
  -- nothing enters any more, so everything leaves in the end
  have hsame : ∀ u ≥ t, ((log u).queue k).entered = ((log t).queue k).entered := by
    intro u hu
    induction u, hu using Nat.le_induction with
    | base => rfl
    | succ u hu ih =>
      rw [hlog u]
      have hno : (st u).entered (inp u) k = [] := if_neg (Bool.eq_false_iff.mp (hfull u hu))
      show _ ++ (st u).entered (inp u) k = _
      rw [hno, List.append_nil, ih]
  obtain ⟨u, hu, hall⟩ := delivers hst hlog hinv hdest hready k t
  have hempty : ((st u).queue k).held.length = 0 := by
    have hconserves := congrArg List.length ((hinv u).conserves k)
    have hle := hall.length_le
    rw [hsame u hu, List.length_append] at hconserves
    omega
  have hroom := hfull u hu
  rw [enqReady, Queue.enqReady_eq, hempty] at hroom
  cases hroom

end Run

end ClientChannel

/-! ### From the masters to the clients -/

/-- A channel from the masters: the queues of the clients, and `last_grant` of the arbiters. -/
structure MasterChannel (ln : LogicalNetworkConf) (α : Type) (n : ℕ) where
  queue : Fin ln.nClients → Queue (NetworkIo ln α) n
  lastGrant : Fin (ln.nMasters + ln.nClients) → Fin (ln.nMasters + ln.nClients)

/-- What the masters offer, and which clients are ready. -/
structure MasterChannelIn (ln : LogicalNetworkConf) (α : Type) where
  enq : Fin ln.nMasters → Option (NetworkIo ln α)
  ready : Fin ln.nClients → Bool

namespace MasterChannel

variable {ln : LogicalNetworkConf} {α : Type} {n : ℕ} [NeZero n] (pipe : Bool)
  (s : MasterChannel ln α n) (i : MasterChannelIn ln α)

def IsReset : Prop := (∀ k, (s.queue k).IsReset) ∧ ∀ d, (s.lastGrant d).val = 0

/-- `phys_in`: nothing comes from the clients. -/
def physIn : Fin (ln.nMasters + ln.nClients) → Option (NetworkIo ln α) :=
  Fin.addCases (fun d => (i.enq d).map MasterToCrossbarShim) fun _ => none

/-- `phys_out.ready`: a client listens if its queue takes something. -/
def physReady : Fin (ln.nMasters + ln.nClients) → Bool :=
  Fin.addCases (fun _ => false) fun k => (s.queue k).enqReady pipe ⟨none, i.ready k⟩

/-- The crossbar takes what master `d` offers. -/
def taken (d : Fin ln.nMasters) : Bool :=
  Crossbar.taken dest s.lastGrant (physIn i) (s.physReady pipe i) (Fin.castAdd ln.nClients d)

/-- What comes to the queue of client `k`. -/
def shown (k : Fin ln.nClients) : Option (NetworkIo ln α) :=
  (Crossbar.out dest s.lastGrant (physIn i) (Fin.natAdd ln.nMasters k)).map CrossbarToClientShim

def queueIn (k : Fin ln.nClients) : QueueInput (NetworkIo ln α) := ⟨s.shown i k, i.ready k⟩

def next : MasterChannel ln α n where
  queue k := (s.queue k).next pipe false (s.queueIn i k)
  lastGrant := Crossbar.next dest s.lastGrant (physIn i) (s.physReady pipe i)

/-- What master `d` sends. -/
def sent (d : Fin ln.nMasters) : List (NetworkIo ln α) :=
  if s.taken pipe i d then (i.enq d).toList else []

def entered (k : Fin ln.nClients) : List (NetworkIo ln α) :=
  (s.queue k).entered pipe (s.queueIn i k)

/-- What client `k` takes in. -/
def left (k : Fin ln.nClients) : List (NetworkIo ln α) := (s.queue k).left false (s.queueIn i k)

end MasterChannel

/-- What the masters sent, and what went through the queues of the clients. -/
structure MasterLog (ln : LogicalNetworkConf) (α : Type) where
  sent : Fin ln.nMasters → List (NetworkIo ln α)
  queue : Fin ln.nClients → FifoLog (NetworkIo ln α)

def MasterLog.start (ln : LogicalNetworkConf) (α : Type) : MasterLog ln α :=
  ⟨fun _ => [], fun _ => ⟨[], []⟩⟩

def MasterLog.note {ln : LogicalNetworkConf} {α : Type} {n : ℕ} [NeZero n] (pipe : Bool)
    (g : MasterLog ln α) (s : MasterChannel ln α n) (i : MasterChannelIn ln α) :
    MasterLog ln α where
  sent d := g.sent d ++ s.sent pipe i d
  queue k := (g.queue k).note (s.entered pipe i k) (s.left i k)

/-- `l` is what the sources `sent d` gave for one place, each in its order. -/
def IsMerge {ι α : Type} [DecidableEq ι] (sent : ι → List α) (l : List α) : Prop :=
  ∃ tagged : List (ι × α), tagged.map Prod.snd = l ∧
    ∀ d, (tagged.filter fun p => p.1 = d).map Prod.snd = sent d

theorem IsMerge.append {ι α : Type} [DecidableEq ι] {sent sent' : ι → List α} {l l' : List α}
    (h : IsMerge sent l) (h' : IsMerge sent' l') :
    IsMerge (fun d => sent d ++ sent' d) (l ++ l') := by
  obtain ⟨tagged, hl, hsent⟩ := h
  obtain ⟨tagged', hl', hsent'⟩ := h'
  refine ⟨tagged ++ tagged', by rw [List.map_append, hl, hl'], fun d => ?_⟩
  rw [List.filter_append, List.map_append, hsent, hsent']

namespace MasterChannel

variable {ln : LogicalNetworkConf} {α : Type} {n : ℕ} {pipe : Bool}

variable {s : MasterChannel ln α n} {i : MasterChannelIn ln α}

@[simp]
theorem physIn_master (d : Fin ln.nMasters) :
    physIn i (Fin.castAdd ln.nClients d) = (i.enq d).map MasterToCrossbarShim := by
  rw [physIn, Fin.addCases_left]

@[simp]
theorem physIn_client (k : Fin ln.nClients) : physIn i (Fin.natAdd ln.nMasters k) = none := by
  rw [physIn, Fin.addCases_right]

/-- The input that a client's output serves. -/
def served (pipe : Bool) (s : MasterChannel ln α n) (i : MasterChannelIn ln α)
    (k : Fin ln.nClients) : Option (Fin (ln.nMasters + ln.nClients)) :=
  Crossbar.source dest s.lastGrant (physIn i) (s.physReady pipe i) (Fin.natAdd ln.nMasters k)

theorem entered_eq (k : Fin ln.nClients) : s.entered pipe i k =
    (Crossbar.arrived dest s.lastGrant (physIn i) (s.physReady pipe i)
      (Fin.natAdd ln.nMasters k)).map CrossbarToClientShim := by
  have hready : s.physReady pipe i (Fin.natAdd ln.nMasters k) =
      (s.queue k).enqReady pipe (s.queueIn i k) := by
    rw [physReady, Fin.addCases_right]
    rfl
  rw [entered, Queue.entered, Crossbar.arrived, hready]
  split
  · rw [queueIn, shown]
    cases Crossbar.out dest s.lastGrant (physIn i) (Fin.natAdd ln.nMasters k) <;> rfl
  · rfl

/-- A message fits if the number of its client is still a number in the crossbar's header. -/
def Fits (x : NetworkIo ln α) : Prop := dest x + ln.nMasters < 2 ^ ln.idBits

theorem sent_filter (hfits : ∀ d x, i.enq d = some x → Fits x) (d : Fin ln.nMasters)
    (k : Fin ln.nClients) : (s.sent pipe i d).filter (fun x => dest x = k.val) =
      if s.served pipe i k = some (Fin.castAdd ln.nClients d) then (i.enq d).toList else [] := by
  have hfilter : (Crossbar.left dest s.lastGrant (physIn i) (s.physReady pipe i)
      (Fin.castAdd ln.nClients d)).filter (fun x => dest x = (Fin.natAdd ln.nMasters k).val) =
      if s.served pipe i k = some (Fin.castAdd ln.nClients d) then
        (physIn i (Fin.castAdd ln.nClients d)).toList else [] :=
    Crossbar.left_filter (Fin.natAdd ln.nMasters k) (Fin.castAdd ln.nClients d)
  rw [physIn_master] at hfilter
  have hsent : s.sent pipe i d = (Crossbar.left dest s.lastGrant (physIn i) (s.physReady pipe i)
      (Fin.castAdd ln.nClients d)).map CrossbarToClientShim := by
    rw [sent, Crossbar.left, taken, physIn_master]
    split <;> cases i.enq d <;> simp
  have hagree : ∀ y ∈ Crossbar.left dest s.lastGrant (physIn i) (s.physReady pipe i)
      (Fin.castAdd ln.nClients d), (decide (dest (CrossbarToClientShim y) = k.val)) =
        decide (dest y = (Fin.natAdd ln.nMasters k).val) := by
    intro y hy
    rw [Crossbar.left, physIn_master] at hy
    split at hy
    · obtain ⟨x, hx, rfl⟩ := Option.map_eq_some_iff.mp (Option.mem_toList.mp hy)
      rw [client_of_master, dest_master (hfits d x hx), Fin.val_natAdd]
      simp
    · cases hy
  rw [hsent, List.filter_map]
  refine (congrArg (List.map CrossbarToClientShim)
    ((List.filter_congr hagree).trans hfilter)).trans ?_
  split <;> cases i.enq d <;> simp

/-- What enters the queue of a client comes from one master. -/
theorem entered_of_served (pipe : Bool) (s : MasterChannel ln α n) (i : MasterChannelIn ln α)
    (k : Fin ln.nClients) :
    (∃ d x, i.enq d = some x ∧ s.served pipe i k = some (Fin.castAdd ln.nClients d) ∧
      s.entered pipe i k = [x]) ∨ s.served pipe i k = none ∧ s.entered pipe i k = [] := by
  rw [entered_eq]
  cases hs : s.served pipe i k with
  | none =>
    refine .inr ⟨rfl, ?_⟩
    rw [arrived_of_source_none hs]
    rfl
  | some j =>
    obtain ⟨y, hy, -⟩ := exists_of_source hs
    rw [arrived_of_source hs]
    induction j using Fin.addCases with
    | right e =>
      rw [physIn_client] at hy
      cases hy
    | left d =>
      rw [physIn_master] at hy ⊢
      obtain ⟨x, hx, rfl⟩ := Option.map_eq_some_iff.mp hy
      refine .inl ⟨d, x, hx, rfl, ?_⟩
      rw [hx]
      simp

theorem isMerge_entered (pipe : Bool) (s : MasterChannel ln α n)
    (hfits : ∀ d x, i.enq d = some x → Fits x) (k : Fin ln.nClients) :
    IsMerge (fun d => (s.sent pipe i d).filter fun x => dest x = k.val) (s.entered pipe i k) := by
  rcases entered_of_served pipe s i k with ⟨d, x, hx, hs, he⟩ | ⟨hs, he⟩
  · refine ⟨[(d, x)], by rw [he]; rfl, fun d' => ?_⟩
    refine Eq.trans ?_ (sent_filter hfits d' k).symm
    rw [hs]
    by_cases hd : d = d'
    · subst hd
      simp [hx]
    · simp [hd]
  · refine ⟨[], by rw [he]; rfl, fun d => ?_⟩
    refine Eq.trans ?_ (sent_filter hfits d k).symm
    rw [hs]
    rfl

variable [NeZero n] {g : MasterLog ln α}

/-- What is known of a channel from the masters. -/
structure Inv (s : MasterChannel ln α n) (g : MasterLog ln α) : Prop where
  conserves : ∀ k, (g.queue k).Conserves (s.queue k).held
  routed : ∀ k, IsMerge (fun d => (g.sent d).filter fun x => dest x = k.val) (g.queue k).entered

theorem Inv.start (h : s.IsReset) : s.Inv (MasterLog.start ln α) where
  conserves k := (h.1 k).held.symm
  routed _ := ⟨[], rfl, fun _ => rfl⟩

/-- **One cycle of a channel from the masters.** -/
theorem Inv.next (h : s.Inv g) (hfits : ∀ d x, i.enq d = some x → Fits x) :
    (s.next pipe i).Inv (g.note pipe s i) where
  conserves k := (h.conserves k).note Queue.step
  routed k := by
    have hmerge := (h.routed k).append (isMerge_entered pipe s hfits k)
    simp only [← List.filter_append] at hmerge
    exact hmerge

theorem left_eq (k : Fin ln.nClients) :
    s.left i k = if i.ready k then (s.queue k).held.head?.toList else [] := by
  rw [left, Queue.left, Queue.deq_eq_head, if_neg Bool.false_ne_true, List.append_nil]
  rfl

section Run

variable {st : ℕ → MasterChannel ln α n} {inp : ℕ → MasterChannelIn ln α} {log : ℕ → MasterLog ln α}

variable {k : Fin ln.nClients}

/-- **Every message that enters the queue of a client comes to it**, if the client is ready again
and again. -/
theorem delivers (hlog : ∀ t, log (t + 1) = (log t).note pipe (st t) (inp t))
    (hinv : ∀ t, (st t).Inv (log t)) (hready : ∀ t, ∃ u ≥ t, (inp u).ready k = true) (t : ℕ) :
    ∃ u ≥ t, ((log t).queue k).entered <+: ((log u).queue k).left := by
  have hnote : ∀ t, ∃ entered left,
      (log (t + 1)).queue k = ((log t).queue k).note entered left :=
    fun t => ⟨(st t).entered pipe (inp t) k, (st t).left (inp t) k, by rw [hlog t]; rfl⟩
  refine FifoLog.delivers (fun t => (log t).queue k) (fun t => ((st t).queue k).held) hnote
    (fun t => (hinv t).conserves k) (fun t hheld => ?_) t
  obtain ⟨u, hu, hr⟩ := hready t
  obtain ⟨hentered, hleft⟩ := FifoLog.le_of_note (fun t => (log t).queue k) hnote hu
  have hpos := List.length_pos_iff.mpr hheld
  have ht := congrArg List.length ((hinv t).conserves k)
  have hu' := congrArg List.length ((hinv u).conserves k)
  rw [List.length_append] at ht hu'
  have hle := hentered.length_le
  have hleftle := hleft.length_le
  by_cases hmoved : ((log t).queue k).left.length < ((log u).queue k).left.length
  · exact ⟨u, hu, hmoved⟩
  · have hnonempty : ((st u).queue k).held ≠ [] := by
      refine List.length_pos_iff.mp ?_
      omega
    obtain ⟨x, rest, hcons⟩ := List.exists_cons_of_ne_nil hnonempty
    have hnext : ((log (u + 1)).queue k).left = ((log u).queue k).left ++ [x] := by
      rw [hlog u]
      show _ ++ (st u).left (inp u) k = _
      rw [left_eq, hr, if_pos rfl, hcons]
      rfl
    refine ⟨u + 1, by omega, ?_⟩
    rw [hnext, List.length_append, List.length_singleton]
    omega

/-- A queue whose client is ready again and again has room again and again. -/
theorem eventually_room (hst : ∀ t, st (t + 1) = (st t).next pipe (inp t))
    (hready : ∀ t, ∃ u ≥ t, (inp u).ready k = true) (t : ℕ) :
    ∃ u ≥ t, (st u).physReady pipe (inp u) (Fin.natAdd ln.nMasters k) = true := by
  have hphys : ∀ u, (st u).physReady pipe (inp u) (Fin.natAdd ln.nMasters k) =
      (decide (((st u).queue k).held.length < n) || pipe && (inp u).ready k) := by
    intro u
    rw [physReady, Fin.addCases_right, Queue.enqReady_eq]
  obtain ⟨u, hu, hr⟩ := hready t
  by_cases hroom : ((st u).queue k).held.length < n
  · exact ⟨u, hu, by rw [hphys, decide_eq_true hroom, Bool.true_or]⟩
  · cases hp : pipe with
    | true => exact ⟨u, hu, by rw [hp] at hphys; rw [hphys, hr, Bool.and_self, Bool.or_true]⟩
    | false =>
      -- the queue is full, and one message leaves it
      subst hp
      have hfull : ((st u).queue k).enqReady false ((st u).queueIn (inp u) k) = false := by
        rw [Queue.enqReady_eq, decide_eq_false hroom]
        rfl
      have hstep : FifoStep ((st u).queue k).held ((st u).entered false (inp u) k)
          ((st u).left (inp u) k) (((st u).next false (inp u)).queue k).held := Queue.step
      have hlen := congrArg List.length hstep
      have hn : 0 < n := Nat.pos_of_ne_zero (NeZero.ne n)
      have hle : ((st u).queue k).held.length ≤ n := Queue.length_held_le
      obtain ⟨x, rest, hcons⟩ := List.exists_cons_of_length_pos (hn.trans_le (not_lt.mp hroom))
      rw [entered, Queue.entered, hfull, left_eq, hr, if_pos rfl, hcons, ← hst u] at hlen
      rw [hcons] at hle
      simp only [Bool.false_eq_true, if_false, List.append_nil, List.length_cons, List.head?_cons,
        Option.toList_some, List.singleton_append] at hlen hle
      refine ⟨u + 1, by omega, ?_⟩
      rw [hphys, decide_eq_true (by omega), Bool.true_or]

/-- **A master that keeps offering a message can send it**, if the client it names is ready again
and again. -/
theorem accepts (hst : ∀ t, st (t + 1) = (st t).next pipe (inp t))
    (hready : ∀ t, ∃ u ≥ t, (inp u).ready k = true) {d : Fin ln.nMasters} {x : NetworkIo ln α}
    (hx : dest x = k) (hfits : Fits x) {t : ℕ}
    (hoffer : ∀ u ≥ t, (∀ v, t ≤ v → v < u → (st v).taken pipe (inp v) d = false) →
      (inp u).enq d = some x) :
    ∃ u ≥ t, (st u).taken pipe (inp u) d = true := by
  have hdest : dest (MasterToCrossbarShim x) = Fin.natAdd ln.nMasters k := by
    rw [dest_master hfits, hx, Fin.val_natAdd]
  obtain ⟨u, hu, -, htaken, -⟩ := eventually_taken (fun u => (st u).lastGrant)
    (fun u => physIn (inp u)) (fun u => (st u).physReady pipe (inp u))
    (fun u => congrArg MasterChannel.lastGrant (hst u)) (Fin.natAdd ln.nMasters k)
    (eventually_room hst hready) hdest (Fin.castAdd ln.nClients d)
    (fun u hu hno => by rw [physIn_master, hoffer u hu hno]; rfl)
  exact ⟨u, hu, htaken⟩

end Run

end MasterChannel

end RiscvSoc
