import Mathlib.Algebra.BigOperators.Group.Finset.Piecewise
import Mathlib.Algebra.Order.BigOperators.Group.Finset
import RiscvSoc.Uncore.L2Agent

/-!
# What every run of the L2 agent keeps

The bookkeeping of the protocol, for any policy whose grants are acknowledged: who has been probed,
what the release counter counts, where the one grant of a transaction is, and which client it
belongs to. Nothing here looks at the state of a line.

A client is *pending* with a tracker while its flag is up, a probe is on its way to it or its
release is on its way back: at most one of the three. The release counter is the number of pending
clients, modulo its width. Since at most `nClients ≤ 2 ^ log2Up(nClients)` clients are pending, the
counter tells one from none even where it has wrapped.
-/

namespace RiscvSoc

open Bits AcquireTracker

variable {P : CoherencePolicy} {n m : ℕ}

/-- Every grant to an acquire is acknowledged. -/
def CoherencePolicy.Acks (P : CoherencePolicy) : Prop :=
  ∀ a cnt, P.requiresAckForGrant (P.getGrantType a cnt) = true

/-! ### One tracker -/

namespace TrackerLink

/-- What a client still owes the tracker. -/
def pending (l : TrackerLink P n) (c : Fin n) : ℕ :=
  (l.tracker.probeFlags c).toNat + (l.probes c).length + (l.releases c).length

/-- The transaction runs, and its requester has not been served. -/
def Unserved (l : TrackerLink P n) : Prop := l.tracker.state ≠ .sIdle ∧ l.acks = 0

end TrackerLink

open TrackerLink

/-- The bookkeeping of one tracker. -/
structure LinkOk (l : TrackerLink P n) : Prop where
  pending_le : ∀ c, l.pending c ≤ 1
  quiet : l.tracker.state ≠ .sProbe → ∀ c, l.pending c = 0
  count : l.tracker.state = .sProbe →
    1 < n ∧ l.tracker.releaseCount = (∑ c, l.pending c) % 2 ^ log2Up n
  probe : ∀ c, ∀ p ∈ l.probes c, p = l.tracker.probe
  waiting : l.tracker.state ≠ .sBusy → l.outerPending = false ∧ l.grants = [] ∧ l.acks = 0
  busy : l.tracker.state = .sBusy →
    (l.outerPending = true ∧ l.grants = [] ∧ l.acks = 0) ∨
    (l.outerPending = false ∧ l.grants = [l.tracker.grant] ∧ l.acks = 0) ∨
    (l.outerPending = false ∧ l.grants = [] ∧ l.acks = 1)
  sharers : l.tracker.state ≠ .sIdle → l.tracker.initSharerCnt = n % 2 ^ log2Up n

theorem sum_update_pred {f : Fin n → ℕ} {c : Fin n} (h : f c = 1) :
    ∑ c', Function.update f c 0 c' + 1 = ∑ c', f c' := by
  rw [Finset.sum_update_of_mem (Finset.mem_univ c), Nat.zero_add, Nat.add_comm,
    Finset.sdiff_singleton_eq_erase, ← Finset.add_sum_erase Finset.univ f (Finset.mem_univ c), h]

theorem AcquireTracker.afterProbe_ne (t : AcquireTracker P n) :
    t.afterProbe ≠ .sIdle ∧ t.afterProbe ≠ .sProbe ∧ t.afterProbe ≠ .sBusy := by
  rw [afterProbe]
  split
  · decide
  · split <;> decide

namespace LinkOk

variable {l : TrackerLink P n}

/-- Nothing in the channels of a tracker that probes nobody. -/
theorem quiet_channels (h : LinkOk l) (hs : l.tracker.state ≠ .sProbe) (c : Fin n) :
    l.tracker.probeFlags c = false ∧ l.probes c = [] ∧ l.releases c = [] := by
  have hp := h.quiet hs c
  rw [pending] at hp
  refine ⟨?_, List.length_eq_zero_iff.mp (by omega), List.length_eq_zero_iff.mp (by omega)⟩
  rcases hf : l.tracker.probeFlags c with _ | _
  · rfl
  · rw [hf] at hp
    simp at hp

/-- The counter tells whether the release it receives is the last one. -/
theorem releaseCount_eq_one_iff (h : LinkOk l) (hs : l.tracker.state = .sProbe) :
    l.tracker.releaseCount = 1 ↔ ∑ c', l.pending c' = 1 := by
  obtain ⟨hn, hcount⟩ := h.count hs
  have hle : ∑ c', l.pending c' ≤ n := by
    calc ∑ c', l.pending c' ≤ ∑ _c' : Fin n, 1 := Finset.sum_le_sum fun c' _ => h.pending_le c'
      _ = n := by simp
  have hpow := le_two_pow_log2Up n
  rw [hcount]
  exact mod_two_pow_eq_one_iff (hn.trans_le hpow) (hle.trans hpow)

/-! ### The steps of one tracker -/

theorem accept (h : LinkOk l) (hs : l.tracker.state = .sIdle) (src : Fin n) (a : Acquire P)
    (incoherent : Fin n → Bool) : LinkOk (l.accept src a incoherent) := by
  have hquiet := h.quiet_channels (by rw [hs]; decide)
  obtain ⟨hout, hgr, hack⟩ := h.waiting (by rw [hs]; decide)
  set flags := probeInitialFlags incoherent with hflags
  have hpend : ∀ c, (l.accept src a incoherent).pending c = (flags c).toNat := fun c => by
    simp [pending, TrackerLink.accept, AcquireTracker.accept, hquiet, hflags]
  have hstate : (l.accept src a incoherent).tracker.state = .sProbe ∧ (∃ c, flags c = true) ∨
      (l.accept src a incoherent).tracker.state ≠ .sProbe ∧
        (l.accept src a incoherent).tracker.state ≠ .sIdle ∧
        (l.accept src a incoherent).tracker.state ≠ .sBusy ∧ ∀ c, flags c = false := by
    by_cases hany : ∃ c, flags c = true
    · exact .inl ⟨if_pos hany, hany⟩
    · refine .inr ?_
      obtain ⟨h1, h2, h3⟩ := afterProbe_ne (l.accept src a incoherent).tracker
      have hst : (l.accept src a incoherent).tracker.state
          = (l.accept src a incoherent).tracker.afterProbe := if_neg hany
      exact ⟨hst ▸ h2, hst ▸ h1, hst ▸ h3, fun c => Bool.eq_false_iff.mpr fun hc => hany ⟨c, hc⟩⟩
  refine ⟨fun c => ?_, fun hne c => ?_, fun heq => ?_, ?_, fun _ => ⟨hout, hgr, hack⟩,
    fun heq => ?_, fun _ => rfl⟩
  · rw [hpend]
    exact Bool.toNat_le _
  · obtain ⟨heq, -⟩ | ⟨-, -, -, hno⟩ := hstate
    · exact absurd heq hne
    · rw [hpend, hno]
      rfl
  · obtain ⟨-, c, hc⟩ | ⟨hne, -⟩ := hstate
    · have hn : 1 < n := by
        simp only [hflags, probeInitialFlags, Bool.and_eq_true,
          decide_eq_true_eq] at hc
        exact hc.1
      refine ⟨hn, ?_⟩
      have hcount : (l.accept src a incoherent).tracker.releaseCount
          = popCount flags % 2 ^ log2Up n := if_pos hn
      have hsum : ∑ c, (l.accept src a incoherent).pending c = popCount flags := by
        simp only [hpend, popCount, Finset.card_filter]
        refine Finset.sum_congr rfl fun c _ => ?_
        cases flags c <;> rfl
      rw [hcount, hsum]
    · exact absurd heq hne
  · intro c p hp
    rw [show (l.accept src a incoherent).probes c = l.probes c from rfl, (hquiet c).2.1] at hp
    exact absurd hp (List.not_mem_nil)
  · obtain ⟨heq', -⟩ | ⟨-, -, hne, -⟩ := hstate
    · rw [heq'] at heq
      exact absurd heq (by decide)
    · exact absurd heq hne

variable {l' : TrackerLink P n} {c : Fin n} {cg : Fin n × Grant P} {rest : List (Fin n × Grant P)}

section

variable (h : LinkOk l)
include h

/-- A step that keeps who is pending, and what the counter says, keeps the bookkeeping of the
probes. -/
theorem of_pending_eq (ht : l'.tracker = l.tracker ∨
      ∃ c, l'.tracker = l.tracker.sendProbe c) (hs : l.tracker.state = .sProbe)
    (hp : ∀ c, l'.pending c = l.pending c) (hprobe : ∀ c, ∀ p ∈ l'.probes c, p = l.tracker.probe)
    (hw : l'.outerPending = l.outerPending ∧ l'.grants = l.grants ∧ l'.acks = l.acks) :
    LinkOk l' := by
  obtain ⟨hout, hgr, hack⟩ := hw
  have hstate : l'.tracker.state = l.tracker.state := by
    rcases ht with ht | ⟨c, ht⟩ <;> simp [ht, AcquireTracker.sendProbe]
  have hcnt : l'.tracker.releaseCount = l.tracker.releaseCount := by
    rcases ht with ht | ⟨c, ht⟩ <;> simp [ht, AcquireTracker.sendProbe]
  have hpr : l'.tracker.probe = l.tracker.probe := by
    rcases ht with ht | ⟨c, ht⟩ <;> simp [ht, AcquireTracker.sendProbe, AcquireTracker.probe]
  have hsh : l'.tracker.initSharerCnt = l.tracker.initSharerCnt := by
    rcases ht with ht | ⟨c, ht⟩ <;> simp [ht, AcquireTracker.sendProbe]
  refine ⟨fun c => hp c ▸ h.pending_le c, fun hne => absurd (hstate.trans hs) hne, fun _ => ?_,
    fun c p hc => hpr ▸ hprobe c p hc, fun hne => ?_, fun heq => ?_, fun hne => ?_⟩
  · simp only [hcnt, hp]
    exact h.count hs
  · rw [hout, hgr, hack]
    exact h.waiting (by rw [hs]; decide)
  · rw [hstate, hs] at heq
    exact absurd heq (by decide)
  · rw [hsh]
    exact h.sharers (hstate ▸ hne)

theorem sendProbe (hs : l.tracker.state = .sProbe)
    (hc : l.tracker.probeFlags c = true) : LinkOk (l.sendProbe c) := by
  refine h.of_pending_eq (.inr ⟨c, rfl⟩) hs (fun c' => ?_) (fun c' p hp => ?_) ⟨rfl, rfl, rfl⟩
  · by_cases hcc : c' = c
    · subst hcc
      simp [pending, TrackerLink.sendProbe, AcquireTracker.sendProbe, hc]
      omega
    · simp [pending, TrackerLink.sendProbe, AcquireTracker.sendProbe, hcc]
  · by_cases hcc : c' = c
    · subst hcc
      simp only [TrackerLink.sendProbe, Function.update_self, List.mem_append,
        List.mem_singleton] at hp
      exact hp.elim (h.probe c' p) id
    · simp only [TrackerLink.sendProbe, Function.update_of_ne hcc] at hp
      exact h.probe c' p hp

theorem probed {p : Probe P} {rest : List (Probe P)} (hc : l.probes c = p :: rest)
    (r : Release P) : LinkOk (l.probed c rest r) := by
  have hs : l.tracker.state = .sProbe := by
    by_contra hne
    have hnil := (h.quiet_channels hne c).2.1
    rw [hc] at hnil
    exact absurd hnil (List.cons_ne_nil _ _)
  refine h.of_pending_eq (.inl rfl) hs (fun c' => ?_) (fun c' q hq => ?_) ⟨rfl, rfl, rfl⟩
  · by_cases hcc : c' = c
    · subst hcc
      simp [pending, TrackerLink.probed, hc]
      omega
    · simp [pending, TrackerLink.probed, hcc]
  · by_cases hcc : c' = c
    · subst hcc
      simp only [TrackerLink.probed, Function.update_self] at hq
      exact h.probe c' q (hc ▸ List.mem_cons_of_mem p hq)
    · simp only [TrackerLink.probed, Function.update_of_ne hcc] at hq
      exact h.probe c' q hq

theorem recvRelease (hs : l.tracker.state = .sProbe) {r : Release P} {rest : List (Release P)}
    (hc : l.releases c = r :: rest) :
    LinkOk (l.recvRelease c rest) := by
  obtain ⟨hn, hcount⟩ := h.count hs
  have hpc : l.pending c = 1 := by
    have hle := h.pending_le c
    rw [pending, hc, List.length_cons] at hle ⊢
    omega
  have hrest : (l.tracker.probeFlags c).toNat = 0 ∧ (l.probes c).length = 0 ∧ rest = [] := by
    rw [pending, hc, List.length_cons] at hpc
    exact ⟨by omega, by omega, List.length_eq_zero_iff.mp (by omega)⟩
  have hpend : (l.recvRelease c rest).pending = Function.update l.pending c 0 := by
    funext c'
    by_cases hcc : c' = c
    · subst hcc
      simp only [pending, TrackerLink.recvRelease, AcquireTracker.recvRelease,
        Function.update_self, hrest, List.length_nil]
    · simp only [pending, TrackerLink.recvRelease, AcquireTracker.recvRelease,
        Function.update_of_ne hcc]
  have hsum := sum_update_pred hpc
  rw [← hpend] at hsum
  have hwait := h.waiting (by rw [hs]; decide)
  have hle : ∀ c', (l.recvRelease c rest).pending c' ≤ 1 := fun c' => by
    rw [hpend]
    by_cases hcc : c' = c
    · rw [hcc, Function.update_self]
      exact Nat.zero_le 1
    · rw [Function.update_of_ne hcc]
      exact h.pending_le c'
  have hsharers := h.sharers (by rw [hs]; decide)
  have hlast := h.releaseCount_eq_one_iff hs
  by_cases h1 : l.tracker.releaseCount = 1
  · have hstate : (l.recvRelease c rest).tracker.state = l.tracker.afterProbe := if_pos h1
    obtain ⟨hni, hnp, hnb⟩ := l.tracker.afterProbe_ne
    have hzero : ∑ c', (l.recvRelease c rest).pending c' = 0 := by
      have := hlast.mp h1
      omega
    refine ⟨hle, fun _ c' => ?_, fun heq => absurd (hstate.symm.trans heq) hnp, h.probe,
      fun _ => hwait, fun heq => absurd (hstate.symm.trans heq) hnb, fun _ => hsharers⟩
    exact Nat.le_zero.mp (hzero ▸ Finset.single_le_sum
      (fun c' _ => Nat.zero_le ((l.recvRelease c rest).pending c')) (Finset.mem_univ c'))
  · have hstate : (l.recvRelease c rest).tracker.state = .sProbe := (if_neg h1).trans hs
    refine ⟨hle, fun hne => absurd hstate hne, fun _ => ⟨hn, ?_⟩, h.probe, fun _ => hwait,
      fun heq => ?_, fun _ => hsharers⟩
    · have hcnt : (l.recvRelease c rest).tracker.releaseCount
          = wrap (log2Up n) ((l.tracker.releaseCount : ℤ) - 1) := if_pos hn
      rw [hcnt, hcount, ← wrap_natCast, ← wrap_natCast]
      refine wrap_congr ?_
      have hcast : ((∑ c', (l.recvRelease c rest).pending c' : ℕ) : ℤ)
          = (∑ c', l.pending c' : ℕ) - 1 := by omega
      rw [hcast]
      exact (wrap_modEq _ _).sub_right 1
    · rw [hstate] at heq
      exact absurd heq (by decide)

/-- Once nobody is pending only the state, the grant and the finish move. -/
theorem of_quiet (hs : l.tracker.state ≠ .sProbe)
    (hi : l.tracker.state ≠ .sIdle)
    (ht : l'.tracker = { l.tracker with state := l'.tracker.state })
    (hs' : l'.tracker.state ≠ .sProbe) (hch : l'.probes = l.probes ∧ l'.releases = l.releases)
    (hwait : l'.tracker.state ≠ .sBusy →
      l'.outerPending = false ∧ l'.grants = [] ∧ l'.acks = 0)
    (hbusy : l'.tracker.state = .sBusy →
      (l'.outerPending = true ∧ l'.grants = [] ∧ l'.acks = 0) ∨
      (l'.outerPending = false ∧ l'.grants = [l.tracker.grant] ∧ l'.acks = 0) ∨
      (l'.outerPending = false ∧ l'.grants = [] ∧ l'.acks = 1)) : LinkOk l' := by
  have hquiet := h.quiet_channels hs
  have hpend : ∀ c, l'.pending c = 0 := fun c => by
    have hf : l'.tracker.probeFlags = l.tracker.probeFlags := by rw [ht]
    simp [pending, hf, hch.1, hch.2, hquiet c]
  have hgrant : l'.tracker.grant = l.tracker.grant := by rw [ht]; rfl
  have hcnt : l'.tracker.initSharerCnt = l.tracker.initSharerCnt := by rw [ht]
  refine ⟨fun c => (hpend c).trans_le zero_le_one, fun _ => hpend, fun heq => absurd heq hs',
    fun c p hp => ?_, hwait, hgrant ▸ hbusy, fun _ => hcnt ▸ h.sharers hi⟩
  rw [hch.1, (hquiet c).2.1] at hp
  exact absurd hp List.not_mem_nil

theorem memWrite (hs : l.tracker.state = .sMemWrite) : LinkOk l.memWrite := by
  have hstate : l.memWrite.tracker.state = .sMemRead ∨ l.memWrite.tracker.state = .sMakeGrant := by
    simp only [TrackerLink.memWrite, AcquireTracker.memWrite]
    split
    · exact .inl rfl
    · exact .inr rfl
  have hwait := h.waiting (by rw [hs]; decide)
  refine h.of_quiet (by rw [hs]; decide) (by rw [hs]; decide) rfl ?_ ⟨rfl, rfl⟩ (fun _ => hwait)
    fun heq => ?_
  · rcases hstate with h' | h' <;> rw [h'] <;> decide
  · rcases hstate with h' | h' <;> rw [h'] at heq <;> cases heq

end

theorem awaitAck_state (hP : P.Acks) (t : AcquireTracker P n) : t.awaitAck.state = .sBusy :=
  if_pos (hP _ _)

theorem memRead (hP : P.Acks) (h : LinkOk l) (hs : l.tracker.state = .sMemRead) :
    LinkOk l.memRead := by
  have hstate : l.memRead.tracker.state = .sBusy := awaitAck_state hP l.tracker
  obtain ⟨-, hgr, hack⟩ := h.waiting (by rw [hs]; decide)
  refine h.of_quiet (by rw [hs]; decide) (by rw [hs]; decide) rfl (by rw [hstate]; decide)
    ⟨rfl, rfl⟩ (fun hne => absurd hstate hne) fun _ => .inl ⟨rfl, hgr, hack⟩

theorem makeGrant (hP : P.Acks) (h : LinkOk l) (hs : l.tracker.state = .sMakeGrant) :
    LinkOk l.makeGrant := by
  have hstate : l.makeGrant.tracker.state = .sBusy := awaitAck_state hP l.tracker
  obtain ⟨hout, hgr, hack⟩ := h.waiting (by rw [hs]; decide)
  refine h.of_quiet (by rw [hs]; decide) (by rw [hs]; decide) rfl (by rw [hstate]; decide)
    ⟨rfl, rfl⟩ (fun hne => absurd hstate hne) fun _ => .inr (.inl ⟨hout, ?_, hack⟩)
  show l.grants ++ [l.tracker.grant] = [l.tracker.grant]
  rw [hgr, List.nil_append]

theorem outerGrant (h : LinkOk l) (hs : l.tracker.state = .sBusy) (ho : l.outerPending = true) :
    LinkOk l.outerGrant := by
  obtain ⟨-, hgr, hack⟩ | ⟨hout, -⟩ | ⟨hout, -⟩ := h.busy hs
  · refine h.of_quiet (by rw [hs]; decide) (by rw [hs]; decide) rfl
      (by rw [show l.outerGrant.tracker = l.tracker from rfl, hs]; decide) ⟨rfl, rfl⟩
      (fun hne => absurd hs hne) fun _ => .inr (.inl ⟨rfl, ?_, hack⟩)
    show l.grants ++ [l.tracker.grant] = [l.tracker.grant]
    rw [hgr, List.nil_append]
  · rw [ho] at hout
    cases hout
  · rw [ho] at hout
    cases hout

theorem of_grants (h : LinkOk l) (hg : l.grants = cg :: rest) :
    l.tracker.state = .sBusy ∧ l.outerPending = false ∧ cg = l.tracker.grant ∧ rest = [] ∧
      l.acks = 0 := by
  have hs : l.tracker.state = .sBusy := by
    by_contra hne
    rw [(h.waiting hne).2.1] at hg
    cases hg
  obtain ⟨-, hgr, -⟩ | ⟨hout, hgr, hack⟩ | ⟨-, hgr, -⟩ := h.busy hs
  · rw [hgr] at hg
    cases hg
  · rw [hgr] at hg
    injection hg with h1 h2
    exact ⟨hs, hout, h1.symm, h2.symm, hack⟩
  · rw [hgr] at hg
    cases hg

theorem granted (hP : P.Acks) (h : LinkOk l) (hg : l.grants = cg :: rest) :
    LinkOk (l.granted cg.2 rest) ∧ (l.granted cg.2 rest).acks = 1 := by
  obtain ⟨hs, hout, rfl, rfl, hack⟩ := h.of_grants hg
  have hreq : P.requiresAckForGrant l.tracker.grant.2.gType = true := hP _ _
  have hone : (l.granted l.tracker.grant.2 []).acks = 1 := by
    simp [TrackerLink.granted, hreq, hack]
  refine ⟨h.of_quiet (by rw [hs]; decide) (by rw [hs]; decide) rfl
    (by rw [show (l.granted l.tracker.grant.2 []).tracker = l.tracker from rfl, hs]; decide)
    ⟨rfl, rfl⟩ (fun hne => absurd hs hne) fun _ => .inr (.inr ⟨hout, rfl, hone⟩), hone⟩

theorem recvAck (h : LinkOk l) (hs : l.tracker.state = .sBusy) (ha : 0 < l.acks) :
    LinkOk l.recvAck := by
  obtain ⟨-, -, hack⟩ | ⟨-, -, hack⟩ | ⟨hout, hgr, hack⟩ := h.busy hs
  · omega
  · omega
  · refine h.of_quiet (by rw [hs]; decide) (by rw [hs]; decide) rfl
      (fun heq => AcquireTrackerState.noConfusion heq) ⟨rfl, rfl⟩ (fun _ => ⟨hout, hgr, ?_⟩)
      fun heq => AcquireTrackerState.noConfusion heq
    show l.acks - 1 = 0
    omega

end LinkOk

/-! ### The whole agent -/

/-- The bookkeeping of the agent: every tracker's own, no two transactions on one line, and every
transaction has exactly one requester, who still remembers it. -/
structure SysOk (s : Sys P n m) : Prop where
  link : ∀ t, LinkOk (s.link t)
  conflict : ∀ t t', t ≠ t' → (s.link t).tracker.state ≠ .sIdle →
    (s.link t').tracker.state ≠ .sIdle →
    (s.link t).tracker.xact.addr ≠ (s.link t').tracker.xact.addr
  inflight : ∀ c i a, s.acquires c i = some a → s.outstanding c i = some a ∧ a.clientXactId = i
  owner : ∀ t, (s.link t).Unserved →
    s.outstanding (s.link t).tracker.initClientId (s.link t).tracker.xact.clientXactId
      = some (s.link t).tracker.xact ∧
    s.acquires (s.link t).tracker.initClientId (s.link t).tracker.xact.clientXactId = none
  unique : ∀ t t', (s.link t).Unserved → (s.link t').Unserved →
    (s.link t).tracker.initClientId = (s.link t').tracker.initClientId →
    (s.link t).tracker.xact.clientXactId = (s.link t').tracker.xact.clientXactId → t = t'

namespace SysOk

variable {s : Sys P n m}

theorem congr {s' : Sys P n m} (h : SysOk s) (ho : s'.outstanding = s.outstanding)
    (ha : s'.acquires = s.acquires) (hl : s'.link = s.link) : SysOk s' := by
  obtain ⟨h1, h2, h3, h4, h5⟩ := h
  exact ⟨hl ▸ h1, hl ▸ h2, ho ▸ ha ▸ h3, by rw [hl, ho, ha]; exact h4, hl ▸ h5⟩

variable {t : Fin m} {c : Fin n} {a : Acquire P} {rest : List (Fin n × Grant P)}

theorem setLink (h : SysOk s) {l' : TrackerLink P n} (hl : LinkOk l')
    (hx : l'.tracker.xact = (s.link t).tracker.xact)
    (hc : l'.tracker.initClientId = (s.link t).tracker.initClientId)
    (hi : l'.tracker.state ≠ .sIdle → (s.link t).tracker.state ≠ .sIdle)
    (hu : l'.Unserved → (s.link t).Unserved) : SysOk (s.setLink t l') := by
  have hold : ∀ t', LinkOk ((s.setLink t l').link t') ∧
      ((s.setLink t l').link t').tracker.xact = (s.link t').tracker.xact ∧
      ((s.setLink t l').link t').tracker.initClientId = (s.link t').tracker.initClientId ∧
      (((s.setLink t l').link t').tracker.state ≠ .sIdle → (s.link t').tracker.state ≠ .sIdle) ∧
      (((s.setLink t l').link t').Unserved → (s.link t').Unserved) := by
    intro t'
    by_cases htt : t' = t
    · subst htt
      rw [Sys.setLink_link_self]
      exact ⟨hl, hx, hc, hi, hu⟩
    · rw [Sys.setLink_link_of_ne _ htt]
      exact ⟨h.link t', rfl, rfl, id, id⟩
  refine ⟨fun t' => (hold t').1, fun t₁ t₂ hne h₁ h₂ => ?_, h.inflight, fun t' ht' => ?_,
    fun t₁ t₂ h₁ h₂ hcc hii => ?_⟩
  · rw [(hold t₁).2.1, (hold t₂).2.1]
    exact h.conflict t₁ t₂ hne ((hold t₁).2.2.2.1 h₁) ((hold t₂).2.2.2.1 h₂)
  · rw [(hold t').2.1, (hold t').2.2.1]
    exact h.owner t' ((hold t').2.2.2.2 ht')
  · rw [(hold t₁).2.2.1, (hold t₂).2.2.1] at hcc
    rw [(hold t₁).2.1, (hold t₂).2.1] at hii
    exact h.unique t₁ t₂ ((hold t₁).2.2.2.2 h₁) ((hold t₂).2.2.2.2 h₂) hcc hii

/-- An acquire leaves a client that has a transaction id to spare. -/
theorem sendAcquire (h : SysOk s)
    (hfree : s.outstanding c a.clientXactId = none) : SysOk (s.sendAcquire c a) := by
  have hother : ∀ c' i, ¬(c' = c ∧ i = a.clientXactId) →
      (s.sendAcquire c a).outstanding c' i = s.outstanding c' i ∧
      (s.sendAcquire c a).acquires c' i = s.acquires c' i := by
    intro c' i hne
    exact ⟨Sys.update₂_of_ne hne, Sys.update₂_of_ne hne⟩
  have hself : (s.sendAcquire c a).outstanding c a.clientXactId = some a ∧
      (s.sendAcquire c a).acquires c a.clientXactId = some a :=
    ⟨Sys.update₂_self .., Sys.update₂_self ..⟩
  refine ⟨h.link, h.conflict, fun c' i b hb => ?_, fun t ht => ?_, h.unique⟩
  · by_cases heq : c' = c ∧ i = a.clientXactId
    · obtain ⟨rfl, rfl⟩ := heq
      rw [hself.2] at hb
      rw [hself.1, ← hb]
      injection hb with hb
      exact ⟨rfl, hb ▸ rfl⟩
    · rw [(hother c' i heq).1]
      exact h.inflight c' i b ((hother c' i heq).2 ▸ hb)
  · have hne : ¬((s.link t).tracker.initClientId = c ∧
        (s.link t).tracker.xact.clientXactId = a.clientXactId) := by
      rintro ⟨hc, hi⟩
      have hown := (h.owner t ht).1
      rw [hc, hi, hfree] at hown
      cases hown
    have hown := h.owner t ht
    obtain ⟨h1, h2⟩ := hother _ _ hne
    exact ⟨h1.trans hown.1, h2.trans hown.2⟩

/-- The first idle tracker takes an acquire that conflicts with no transaction. -/
theorem accept (h : SysOk s) {i : ℕ} (ha : s.acquires c i = some a)
    (hi : (s.link t).tracker.state = .sIdle) (hconf : ¬s.AcquireConflict a.addr)
    (incoherent : Fin n → Bool) :
    SysOk ((s.setAcquires c i none).setLink t ((s.link t).accept c a incoherent)) := by
  obtain ⟨hout, rfl⟩ := h.inflight c i a ha
  set s' := (s.setAcquires c a.clientXactId none).setLink t ((s.link t).accept c a incoherent)
  have hself : s'.link t = (s.link t).accept c a incoherent := Sys.setLink_link_self ..
  have hother : ∀ t', t' ≠ t → s'.link t' = s.link t' := fun t' hne =>
    Sys.setLink_link_of_ne _ hne _
  have hfree : ∀ t', (s.link t').tracker.state ≠ .sIdle →
      (s.link t').tracker.xact.addr ≠ a.addr := fun t' hne heq => hconf ⟨t', hne, heq⟩
  -- No open transaction has the requester and id of an acquire still in flight.
  have hsep : ∀ t', (s.link t').Unserved → ¬((s.link t').tracker.initClientId = c ∧
      (s.link t').tracker.xact.clientXactId = a.clientXactId) := by
    rintro t' ht' ⟨hc, hid⟩
    have hown := (h.owner t' ht').2
    rw [hc, hid, ha] at hown
    cases hown
  have hacq : ∀ c' i, ¬(c' = c ∧ i = a.clientXactId) → s'.acquires c' i = s.acquires c' i :=
    fun c' i hne => Sys.update₂_of_ne hne
  have hacq' : s'.acquires c a.clientXactId = none := Sys.update₂_self ..
  refine ⟨fun t' => ?_, fun t₁ t₂ hne h₁ h₂ => ?_, fun c' i' b hb => ?_, fun t' ht' => ?_,
    fun t₁ t₂ h₁ h₂ hcc hii => ?_⟩
  · by_cases htt : t' = t
    · rw [htt, hself]
      exact (h.link t).accept hi c a incoherent
    · rw [hother t' htt]
      exact h.link t'
  · by_cases ht₁ : t₁ = t
    · have ht₂ : t₂ ≠ t := fun h2 => hne (ht₁.trans h2.symm)
      rw [hother t₂ ht₂] at h₂
      rw [hother t₂ ht₂, ht₁, hself]
      exact (hfree t₂ h₂).symm
    · by_cases ht₂ : t₂ = t
      · rw [hother t₁ ht₁] at h₁
        rw [hother t₁ ht₁, ht₂, hself]
        exact hfree t₁ h₁
      · rw [hother t₁ ht₁] at h₁ ⊢
        rw [hother t₂ ht₂] at h₂ ⊢
        exact h.conflict t₁ t₂ hne h₁ h₂
  · by_cases heq : c' = c ∧ i' = a.clientXactId
    · rw [heq.1, heq.2, hacq'] at hb
      cases hb
    · exact h.inflight c' i' b (hacq c' i' heq ▸ hb)
  · by_cases htt : t' = t
    · rw [htt, hself]
      exact ⟨hout, hacq'⟩
    · rw [hother t' htt] at ht' ⊢
      have hown := h.owner t' ht'
      exact ⟨hown.1, (hacq _ _ (hsep t' ht')).trans hown.2⟩
  · by_cases ht₁ : t₁ = t
    · by_cases ht₂ : t₂ = t
      · rw [ht₁, ht₂]
      · rw [hother t₂ ht₂] at h₂ hcc hii
        rw [ht₁, hself] at hcc hii
        exact absurd ⟨hcc.symm, hii.symm⟩ (hsep t₂ h₂)
    · rw [hother t₁ ht₁] at h₁ hcc hii
      by_cases ht₂ : t₂ = t
      · rw [ht₂, hself] at hcc hii
        exact absurd ⟨hcc, hii⟩ (hsep t₁ h₁)
      · rw [hother t₂ ht₂] at h₂ hcc hii
        exact h.unique t₁ t₂ h₁ h₂ hcc hii

/-- What is known when a grant is taken: it is the tracker's own, and its requester still
remembers the acquire. -/
theorem of_grants (h : SysOk s) {g : Grant P} (hg : (s.link t).grants = (c, g) :: rest) :
    (s.link t).Unserved ∧ c = (s.link t).tracker.initClientId ∧
      g = (s.link t).tracker.grant.2 ∧
      s.outstanding c g.clientXactId = some (s.link t).tracker.xact := by
  obtain ⟨hs, -, hcg, -, hack⟩ := (h.link t).of_grants hg
  have hun : (s.link t).Unserved := ⟨by rw [hs]; decide, hack⟩
  obtain ⟨rfl, rfl⟩ := Prod.mk.inj hcg
  exact ⟨hun, rfl, rfl, (h.owner t hun).1⟩

theorem granted (hP : P.Acks) (h : SysOk s) {g : Grant P}
    (hg : (s.link t).grants = (c, g) :: rest) :
    SysOk ((s.setOutstanding c g.clientXactId none).setLink t ((s.link t).granted g rest)) := by
  obtain ⟨hun, rfl, rfl, -⟩ := h.of_grants hg
  obtain ⟨hlink, hone⟩ := (h.link t).granted hP hg
  have hserved : ¬((s.link t).granted (s.link t).tracker.grant.2 rest).Unserved := fun hu => by
    rw [Unserved, hone] at hu
    exact absurd hu.2 one_ne_zero
  have hbase := h.setLink hlink rfl rfl (fun hne => hne) fun hu => absurd hu hserved
  refine ⟨hbase.link, hbase.conflict, fun c' i b hb => ?_, fun t' ht' => ?_, hbase.unique⟩
  · have hne : ¬(c' = (s.link t).tracker.initClientId ∧
        i = (s.link t).tracker.grant.2.clientXactId) := by
      rintro ⟨rfl, rfl⟩
      have hnone := (h.owner t hun).2
      cases hnone.symm.trans hb
    exact ⟨(Sys.update₂_of_ne hne).trans (h.inflight c' i b hb).1, (h.inflight c' i b hb).2⟩
  · have htt : t' ≠ t := by
      rintro rfl
      exact hserved (by simpa [Sys.setLink] using ht')
    have hlk : ((s.setOutstanding (s.link t).tracker.initClientId
        (s.link t).tracker.grant.2.clientXactId none).setLink t
          ((s.link t).granted (s.link t).tracker.grant.2 rest)).link t' = s.link t' :=
      Sys.setLink_link_of_ne _ htt _
    rw [hlk] at ht' ⊢
    have hown := h.owner t' ht'
    have hne : ¬((s.link t').tracker.initClientId = (s.link t).tracker.initClientId ∧
        (s.link t').tracker.xact.clientXactId = (s.link t).tracker.xact.clientXactId) :=
      fun hsame => htt (h.unique t' t ht' hun hsame.1 hsame.2)
    exact ⟨(Sys.update₂_of_ne hne).trans hown.1, hown.2⟩

end SysOk

/-! ### The handshakes, one by one -/

/-- What a step can do, guards included. The voluntary release tracker touches nothing else. -/
inductive Handshake (s : Sys P n m) : Act P n m → Sys P n m → Prop
  | hit {c addr cmd} : P.isHit cmd (s.line c addr) = true →
      Handshake s (.hit c addr cmd) (s.setLine c addr (P.newStateOnHit cmd (s.line c addr)))
  | cacheControl {c addr cmd} (v) : P.isValid (s.line c addr) = true →
      Handshake s (.cacheControl c addr cmd)
        { s.setLine c addr (P.newStateOnCacheControl cmd) with vol := v }
  | send {c a act} : s.outstanding c a.clientXactId = none → (∀ t, act ≠ .granted t) →
      (∀ t c i inc, act ≠ .accept t c i inc) → Handshake s act (s.sendAcquire c a)
  | probed {t c p rest} : (s.link t).probes c = p :: rest →
      Handshake s (.probed t c)
        ((s.setLine c p.addr (Sys.probeReply (s.line c p.addr) p).2).setLink t
          ((s.link t).probed c rest (Sys.probeReply (s.line c p.addr) p).1))
  | granted {t c g rest a} : (s.link t).grants = (c, g) :: rest →
      s.outstanding c g.clientXactId = some a →
      Handshake s (.granted t)
        (((s.fill c a g.gType).setOutstanding c g.clientXactId none).setLink t
          ((s.link t).granted g rest))
  | accept {t c i a inc} : s.acquires c i = some a → s.IsFirstIdle t →
      ¬s.AcquireConflict a.addr →
      (∀ c', inc c' = true → P.isValid (s.line c' a.addr) = false) →
      Handshake s (.accept t c i inc)
        ((s.setAcquires c i none).setLink t ((s.link t).accept c a inc))
  | sendProbe {t c} : (s.link t).tracker.state = .sProbe → (s.link t).tracker.IsCurrPId c →
      Handshake s (.sendProbe t c) (s.setLink t ((s.link t).sendProbe c))
  | recvRelease {t c r rest} : (s.link t).releases c = r :: rest →
      (s.link t).tracker.state = .sProbe →
      Handshake s (.recvRelease t c) (s.setLink t ((s.link t).recvRelease c rest))
  | memWrite {t} : (s.link t).tracker.state = .sMemWrite →
      Handshake s (.memWrite t) (s.setLink t (s.link t).memWrite)
  | memRead {t} : (s.link t).tracker.state = .sMemRead →
      Handshake s (.memRead t) (s.setLink t (s.link t).memRead)
  | makeGrant {t} : (s.link t).tracker.state = .sMakeGrant →
      Handshake s (.makeGrant t) (s.setLink t (s.link t).makeGrant)
  | outerGrant {t} : (s.link t).tracker.state = .sBusy → (s.link t).outerPending = true →
      Handshake s (.outerGrant t) (s.setLink t (s.link t).outerGrant)
  | recvAck {t} : (s.link t).tracker.state = .sBusy → 0 < (s.link t).acks →
      Handshake s (.recvAck t) (s.setLink t (s.link t).recvAck)
  | vol {act} (v) : (∀ t, act ≠ .granted t) → (∀ t c i inc, act ≠ .accept t c i inc) →
      Handshake s act { s with vol := v }

variable {s s' : Sys P n m} {act : Act P n m}

theorem handshake_of_step (h : Sys.step act s = some s') :
    Handshake s act s' := by
  cases act <;> simp only [Sys.step] at h
  case hit =>
    split at h
    · cases h
      exact .hit ‹_›
    · cases h
  case cacheControl =>
    split at h
    · split at h <;> cases h <;> exact .cacheControl _ ‹_›
    · cases h
  case miss =>
    split at h
    · cases h
      rename_i hc
      exact .send (Option.isNone_iff_eq_none.mp hc.1) (fun _ => nofun) fun _ _ _ _ => nofun
    · cases h
  case uncached =>
    split at h
    · cases h
      rename_i hc
      exact .send (Option.isNone_iff_eq_none.mp hc.1) (fun _ => nofun) fun _ _ _ _ => nofun
    · cases h
  case probed =>
    split at h
    · cases h
    · cases h
      exact .probed ‹_›
  case granted =>
    split at h
    · cases h
    · split at h
      · cases h
      · cases h
        exact .granted ‹_› ‹_›
  case volGranted =>
    split at h
    · cases h
    · cases h
      exact .vol _ (fun _ => nofun) fun _ _ _ _ => nofun
  case accept =>
    split at h
    · cases h
    · split at h
      · cases h
        rename_i ha hc
        exact .accept ha hc.1 hc.2.1 hc.2.2
      · cases h
  case sendProbe =>
    split at h
    · cases h
      rename_i hc
      exact .sendProbe hc.1 hc.2
    · cases h
  case recvRelease =>
    split at h
    · cases h
    · split at h
      · cases h
        exact .recvRelease ‹_› ‹_›
      · cases h
  case outerGrant =>
    split at h
    · cases h
      rename_i hc
      exact .outerGrant hc.1 hc.2
    · cases h
  case recvAck =>
    split at h
    · cases h
      rename_i hc
      exact .recvAck hc.1 hc.2
    · cases h
  case volRelease =>
    split at h
    · cases h
    · split at h
      · cases h
        exact .vol _ (fun _ => nofun) fun _ _ _ _ => nofun
      · cases h
  case volMem =>
    split at h
    · cases h
      exact .vol _ (fun _ => nofun) fun _ _ _ _ => nofun
    · cases h
  case volAck =>
    split at h
    · cases h
      exact .vol _ (fun _ => nofun) fun _ _ _ _ => nofun
    · cases h
  case memWrite =>
    split at h
    · cases h
      exact .memWrite ‹_›
    · cases h
  case memRead =>
    split at h
    · cases h
      exact .memRead ‹_›
    · cases h
  case makeGrant =>
    split at h
    · cases h
      exact .makeGrant ‹_›
    · cases h

/-- **The step lemma of the bookkeeping.** -/
theorem SysOk.step (hP : P.Acks) (h : SysOk s) (hs : Handshake s act s') : SysOk s' := by
  cases hs with
  | hit _ => exact h.congr rfl rfl rfl
  | cacheControl _ _ => exact h.congr rfl rfl rfl
  | send hfree _ _ => exact h.sendAcquire hfree
  | @probed t c p rest hp =>
    exact (h.setLink ((h.link t).probed hp _) rfl rfl (fun hne => hne) fun hu => hu).congr
      rfl rfl rfl
  | @granted t c g rest a hg ha =>
    refine (h.granted hP hg).congr ?_ ?_ ?_
    all_goals simp only [Sys.setLink, Sys.setOutstanding, Sys.fill]; split <;> rfl
  | @accept t c i a inc ha hidle hconf _ => exact h.accept ha hidle.1 hconf inc
  | @sendProbe t c hst hc =>
    exact h.setLink ((h.link t).sendProbe hst hc.1) rfl rfl (fun hne => hne) fun hu => hu
  | @recvRelease t c r rest hr hst =>
    have hne : (s.link t).tracker.state ≠ .sIdle := by rw [hst]; decide
    exact h.setLink ((h.link t).recvRelease hst hr) rfl rfl (fun _ => hne) fun hu => ⟨hne, hu.2⟩
  | @memWrite t hst =>
    have hne : (s.link t).tracker.state ≠ .sIdle := by rw [hst]; decide
    exact h.setLink ((h.link t).memWrite hst) rfl rfl (fun _ => hne) fun hu => ⟨hne, hu.2⟩
  | @memRead t hst =>
    have hne : (s.link t).tracker.state ≠ .sIdle := by rw [hst]; decide
    exact h.setLink ((h.link t).memRead hP hst) rfl rfl (fun _ => hne) fun hu => ⟨hne, hu.2⟩
  | @makeGrant t hst =>
    have hne : (s.link t).tracker.state ≠ .sIdle := by rw [hst]; decide
    exact h.setLink ((h.link t).makeGrant hP hst) rfl rfl (fun _ => hne) fun hu => ⟨hne, hu.2⟩
  | @outerGrant t hst ho =>
    exact h.setLink ((h.link t).outerGrant hst ho) rfl rfl (fun hne => hne) fun hu => hu
  | @recvAck t hst ha =>
    have hne : (s.link t).tracker.state ≠ .sIdle := by rw [hst]; decide
    exact h.setLink ((h.link t).recvAck hst ha) rfl rfl (fun _ => hne) fun hu => absurd rfl hu.1
  | vol _ _ _ => exact h.congr rfl rfl rfl

theorem SysOk.of_isReset {s : Sys P n m} (h : s.IsReset) : SysOk s := by
  have hne : ∀ t, ¬(s.link t).tracker.state ≠ .sIdle := fun t hne => hne (h.idle t)
  refine ⟨fun t => ?_, fun t _ _ ht => absurd ht (hne t), fun c i a ha => ?_,
    fun t ht => absurd ht.1 (hne t), fun t _ ht => absurd ht.1 (hne t)⟩
  · have hpend : ∀ c, (s.link t).pending c = 0 := fun c => by
      simp [pending, h.flags t c, h.probes t c, h.releases t c]
    refine ⟨fun c => (hpend c).trans_le zero_le_one, fun _ => hpend, fun heq => ?_,
      fun c p hp => ?_, fun _ => ⟨h.outerPending t, h.grants t, h.acks t⟩, fun heq => ?_,
      fun ht => absurd ht (hne t)⟩
    · rw [h.idle t] at heq
      cases heq
    · rw [h.probes t c] at hp
      cases hp
    · rw [h.idle t] at heq
      cases heq
  · rw [h.acquires c i] at ha
    cases ha

/-- **The bookkeeping holds in every run.** -/
theorem sysOk_of_reachable (hP : P.Acks) :
    ∀ s : Sys P n m, (Sys.machine P n m).Reachable s → SysOk s :=
  Machine.invariant (fun _ h => .of_isReset h) fun _ _ _ _ h hs => h.step hP (handshake_of_step hs)

end RiscvSoc
