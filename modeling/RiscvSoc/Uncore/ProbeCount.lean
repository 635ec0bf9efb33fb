import RiscvSoc.Uncore.L2Invariant

/-!
# Every probed client is awaited once

One `AcquireTracker` and its channels, on its own: any acquire, any set of incoherent clients, any
order in which probes are taken and answered, with anything as the answer. Every tracker of the
agent runs so (`Sys.reachable_links`), whatever the others do meanwhile.

A log next to the tracker remembers, for the transaction that was accepted last, whom it flagged,
how many probes it sent to each client and how many releases it took from each.

## The counter

`release_count` has `log2Up(nClients)` bits and is loaded with a population count that may be
`nClients` itself. For a power of two it is then loaded with zero, and the first release takes one
from zero (`not_countsDown`). Nothing is lost by that: it counts modulo its width, there are never
more answers outstanding than its width has values, and it reads one for exactly one of these.
-/

namespace RiscvSoc

open Bits AcquireTracker

variable {P : CoherencePolicy} {n m : ℕ}

/-! ### One tracker on its own -/

/-- What one tracker, its clients and the memory behind it do. -/
inductive LinkAct (P : CoherencePolicy) (n : ℕ)
  | accept (src : Fin n) (a : Acquire P) (incoherent : Fin n → Bool)
  | sendProbe (c : Fin n)
  | probed (c : Fin n) (r : Release P)
  | recvRelease (c : Fin n)
  | memWrite
  | memRead
  | makeGrant
  | outerGrant
  | granted
  | recvAck

namespace TrackerLink

/-- The handshakes of `Sys.step` that a tracker has a part in. -/
def step : LinkAct P n → TrackerLink P n → Option (TrackerLink P n)
  | .accept src a incoherent, l =>
    if l.tracker.state = .sIdle then some (l.accept src a incoherent) else none
  | .sendProbe c, l =>
    if l.tracker.state = .sProbe ∧ l.tracker.IsCurrPId c then some (l.sendProbe c) else none
  | .probed c r, l =>
    match l.probes c with
    | [] => none
    | _ :: rest => some (l.probed c rest r)
  | .recvRelease c, l =>
    match l.releases c with
    | [] => none
    | _ :: rest => if l.tracker.state = .sProbe then some (l.recvRelease c rest) else none
  | .memWrite, l => if l.tracker.state = .sMemWrite then some l.memWrite else none
  | .memRead, l => if l.tracker.state = .sMemRead then some l.memRead else none
  | .makeGrant, l => if l.tracker.state = .sMakeGrant then some l.makeGrant else none
  | .outerGrant, l =>
    if l.tracker.state = .sBusy ∧ l.outerPending = true then some l.outerGrant else none
  | .granted, l =>
    match l.grants with
    | [] => none
    | (_, g) :: rest => some (l.granted g rest)
  | .recvAck, l => if l.tracker.state = .sBusy ∧ 0 < l.acks then some l.recvAck else none

/-- Out of reset. -/
structure IsReset (l : TrackerLink P n) : Prop where
  idle : l.tracker.state = .sIdle
  flags : ∀ c, l.tracker.probeFlags c = false
  probes : ∀ c, l.probes c = []
  releases : ∀ c, l.releases c = []

/-- A tracker and its channels, with everything around them free. -/
def machine (P : CoherencePolicy) (n : ℕ) : Machine (TrackerLink P n) (LinkAct P n) :=
  Machine.ofFun IsReset step

end TrackerLink

/-! ### The log of a transaction -/

/-- Whom the last accepted transaction flagged, the probes it sent and the answers it took. -/
structure ProbeLog (n : ℕ) where
  flagged : Fin n → Bool
  sent : Fin n → ℕ
  answered : Fin n → ℕ

namespace ProbeLog

variable (g : ProbeLog n)

def empty : ProbeLog n := ⟨fun _ => false, 0, 0⟩

/-- What the log notes of an action. -/
def note : LinkAct P n → ProbeLog n → ProbeLog n
  | .accept _ _ incoherent, _ => ⟨probeInitialFlags incoherent, 0, 0⟩
  | .sendProbe c, g => { g with sent := Function.update g.sent c (g.sent c + 1) }
  | .recvRelease c, g => { g with answered := Function.update g.answered c (g.answered c + 1) }
  | _, g => g

/-- The clients that were flagged and have not answered. -/
def outstanding : Finset (Fin n) :=
  Finset.univ.filter fun c => g.flagged c = true ∧ g.answered c = 0

theorem mem_outstanding {c : Fin n} :
    c ∈ g.outstanding ↔ g.flagged c = true ∧ g.answered c = 0 := by
  rw [outstanding, Finset.mem_filter, and_iff_right (Finset.mem_univ c)]

theorem card_outstanding_le : g.outstanding.card ≤ 2 ^ log2Up n :=
  (Finset.card_le_univ _).trans ((Fintype.card_fin n).le.trans (le_two_pow_log2Up n))

end ProbeLog

/-- A tracker next to its log. -/
def TrackerLink.logged (P : CoherencePolicy) (n : ℕ) :
    Machine (TrackerLink P n × ProbeLog n) (LinkAct P n) :=
  (TrackerLink.machine P n).observe ProbeLog.empty fun _ => ProbeLog.note

/-! ### The invariant -/

/-- A probe is yet to be sent, on its way, answered by a release on its way, or answered for good;
the tracker waits while an answer is outstanding, and counts them. -/
structure LogOk (l : TrackerLink P n) (g : ProbeLog n) : Prop where
  sent : ∀ c, g.sent c + (l.tracker.probeFlags c).toNat = (g.flagged c).toNat
  answered : ∀ c, g.answered c + (l.probes c).length + (l.releases c).length = g.sent c
  waits : l.tracker.state = .sProbe ↔ g.outstanding.Nonempty
  count : l.tracker.state = .sProbe →
    1 < n ∧ l.tracker.releaseCount = g.outstanding.card % 2 ^ log2Up n

theorem AcquireTracker.awaitAck_ne (t : AcquireTracker P n) : t.awaitAck.state ≠ .sProbe := by
  rw [awaitAck]
  split <;> exact AcquireTrackerState.noConfusion

namespace LogOk

variable {l l' : TrackerLink P n} {g : ProbeLog n}

variable {c : Fin n}

/-- A client whose flag is up, whose probe is on its way or whose release is on its way has not
answered. -/
theorem mem_outstanding (h : LogOk l g)
    (hc : 0 < (l.tracker.probeFlags c).toNat + (l.probes c).length + (l.releases c).length) :
    c ∈ g.outstanding := by
  have hsent := h.sent c
  have hans := h.answered c
  have hle := (g.flagged c).toNat_le
  rw [g.mem_outstanding, ← Bool.toNat_eq_one]
  omega

theorem of_isReset (h : l.IsReset) : LogOk l ProbeLog.empty := by
  have hnone : (ProbeLog.empty : ProbeLog n).outstanding = ∅ :=
    Finset.filter_eq_empty_iff.mpr fun c _ hc => Bool.false_ne_true hc.1
  refine ⟨fun c => by rw [h.flags c]; rfl,
    fun c => by rw [h.probes c, h.releases c]; rfl, ?_, fun heq => ?_⟩
  · rw [hnone, h.idle]
    exact iff_of_false (by decide) Finset.not_nonempty_empty
  · rw [h.idle] at heq
    cases heq

section

variable (h : LogOk l g)
include h

theorem quiet (hs : l.tracker.state ≠ .sProbe) (c : Fin n) :
    l.probes c = [] ∧ l.releases c = [] := by
  have hzero : (l.tracker.probeFlags c).toNat + (l.probes c).length + (l.releases c).length = 0 :=
    Nat.eq_zero_of_not_pos fun hpos => hs (h.waits.mpr ⟨c, h.mem_outstanding hpos⟩)
  exact ⟨List.length_eq_zero_iff.mp (by omega), List.length_eq_zero_iff.mp (by omega)⟩

theorem accept (hs : l.tracker.state = .sIdle) (src : Fin n) (a : Acquire P)
    (incoherent : Fin n → Bool) :
    LogOk (l.accept src a incoherent) ⟨probeInitialFlags incoherent, 0, 0⟩ := by
  have hquiet := h.quiet (by rw [hs]; decide)
  have hflagged : ∀ c, c ∈ ProbeLog.outstanding
      ⟨probeInitialFlags incoherent, 0, 0⟩ ↔
      probeInitialFlags incoherent c = true := fun c =>
    (ProbeLog.mem_outstanding _).trans (and_iff_left rfl)
  refine ⟨fun c => Nat.zero_add _, fun c => ?_, ?_, fun heq => ?_⟩
  · change 0 + (l.probes c).length + (l.releases c).length = 0
    rw [(hquiet c).1, (hquiet c).2]
    rfl
  · simp only [Finset.Nonempty, hflagged]
    simp only [TrackerLink.accept, AcquireTracker.accept]
    split
    · exact iff_of_true rfl ‹_›
    · exact iff_of_false (afterProbe_ne _).2.1 ‹_›
  · have hn : 1 < n := by
      by_contra hn
      have hno : ∀ c, probeInitialFlags incoherent c = false := fun c => by
        simp [probeInitialFlags, hn]
      simp only [TrackerLink.accept, AcquireTracker.accept, hno] at heq
      rw [if_neg (by simp)] at heq
      exact (afterProbe_ne _).2.1 heq
    refine ⟨hn, (if_pos hn).trans ?_⟩
    have hset : popCount (probeInitialFlags incoherent)
        = (ProbeLog.outstanding
          ⟨probeInitialFlags incoherent, 0, 0⟩ : Finset (Fin n)).card :=
      congrArg Finset.card (Finset.ext fun c => by
        rw [hflagged, Finset.mem_filter, and_iff_right (Finset.mem_univ c)])
    rw [hset]

theorem sendProbe (hc : l.tracker.probeFlags c = true) :
    LogOk (l.sendProbe c) { g with sent := Function.update g.sent c (g.sent c + 1) } := by
  refine ⟨fun c' => ?_, fun c' => ?_, h.waits, h.count⟩
  · have hsent := h.sent c'
    by_cases hcc : c' = c
    · subst hcc
      rw [hc] at hsent
      simpa [TrackerLink.sendProbe, AcquireTracker.sendProbe] using hsent
    · simpa [TrackerLink.sendProbe, AcquireTracker.sendProbe, hcc] using hsent
  · have hans := h.answered c'
    by_cases hcc : c' = c
    · subst hcc
      simp only [TrackerLink.sendProbe, Function.update_self, List.length_append,
        List.length_singleton]
      omega
    · simpa [TrackerLink.sendProbe, hcc] using hans

theorem probed {p : Probe P} {rest : List (Probe P)} (hc : l.probes c = p :: rest)
    (r : Release P) : LogOk (l.probed c rest r) g := by
  refine ⟨h.sent, fun c' => ?_, h.waits, h.count⟩
  have hans := h.answered c'
  by_cases hcc : c' = c
  · subst hcc
    rw [hc, List.length_cons] at hans
    simp only [TrackerLink.probed, Function.update_self, List.length_append,
      List.length_singleton]
    omega
  · simpa [TrackerLink.probed, hcc] using hans

/-- The release of an outstanding client leaves one client less to wait for, and the counter reads
one exactly when it was the last. -/
theorem recvRelease (hs : l.tracker.state = .sProbe) {r : Release P} {rest : List (Release P)}
    (hc : l.releases c = r :: rest) :
    LogOk (l.recvRelease c rest)
      { g with answered := Function.update g.answered c (g.answered c + 1) } := by
  obtain ⟨hn, hcount⟩ := h.count hs
  have hmem : c ∈ g.outstanding := h.mem_outstanding (by rw [hc, List.length_cons]; omega)
  have hrest : ProbeLog.outstanding
      { g with answered := Function.update g.answered c (g.answered c + 1) }
      = g.outstanding.erase c := by
    ext c'
    rw [ProbeLog.mem_outstanding, Finset.mem_erase, ProbeLog.mem_outstanding]
    by_cases hcc : c' = c
    · subst hcc
      simp
    · simp [hcc]
  have hcard := Finset.card_erase_add_one hmem
  have hlast : l.tracker.releaseCount = 1 ↔ g.outstanding.card = 1 := by
    rw [hcount]
    exact mod_two_pow_eq_one_iff (hn.trans_le (le_two_pow_log2Up n))
      g.card_outstanding_le
  refine ⟨h.sent, fun c' => ?_, ?_, fun heq => ⟨hn, ?_⟩⟩
  · have hans := h.answered c'
    by_cases hcc : c' = c
    · subst hcc
      rw [hc, List.length_cons] at hans
      simp only [TrackerLink.recvRelease, Function.update_self]
      omega
    · simpa [TrackerLink.recvRelease, hcc] using hans
  · rw [hrest, ← Finset.card_pos]
    simp only [TrackerLink.recvRelease, AcquireTracker.recvRelease]
    split
    · exact iff_of_false (afterProbe_ne _).2.1 (by have := hlast.mp ‹_›; omega)
    · refine iff_of_true hs ?_
      have hne : g.outstanding.card ≠ 1 := fun h1 => ‹¬_› (hlast.mpr h1)
      omega
  · have hcnt : (l.recvRelease c rest).tracker.releaseCount
        = wrap (log2Up n) ((l.tracker.releaseCount : ℤ) - 1) := if_pos hn
    have hcast : (((g.outstanding.erase c).card : ℕ) : ℤ) = (g.outstanding.card : ℕ) - 1 := by
      omega
    rw [hcnt, hcount, hrest, ← wrap_natCast, ← wrap_natCast, hcast]
    exact wrap_congr ((wrap_modEq _ _).sub_right 1)

/-- Neither the flags nor the channels of the probes are touched by anything else. -/
theorem congr (ht : l'.tracker = { l.tracker with state := l'.tracker.state })
    (hs : l'.tracker.state = .sProbe ↔ l.tracker.state = .sProbe)
    (hch : l'.probes = l.probes ∧ l'.releases = l.releases) : LogOk l' g := by
  refine ⟨fun c => ?_, fun c => ?_, hs.trans h.waits, fun heq => ?_⟩
  · rw [ht]
    exact h.sent c
  · rw [hch.1, hch.2]
    exact h.answered c
  · rw [ht]
    exact h.count (hs.mp heq)

theorem of_quiet (hs : l.tracker.state ≠ .sProbe)
    (ht : l'.tracker = { l.tracker with state := l'.tracker.state })
    (hs' : l'.tracker.state ≠ .sProbe) (hch : l'.probes = l.probes ∧ l'.releases = l.releases) :
    LogOk l' g :=
  h.congr ht (iff_of_false hs' hs) hch

/-- **The step lemma of the log.** -/
theorem step {act : LinkAct P n} (hstep : l.step act = some l') :
    LogOk l' (ProbeLog.note act g) := by
  cases act <;> simp only [TrackerLink.step] at hstep
  case accept src a incoherent =>
    split at hstep <;> cases hstep
    exact h.accept ‹_› src a incoherent
  case sendProbe c =>
    split at hstep <;> cases hstep
    rename_i hc
    exact h.sendProbe hc.2.1
  case probed c r =>
    split at hstep <;> cases hstep
    exact h.probed ‹_› r
  case recvRelease c =>
    split at hstep
    · cases hstep
    · split at hstep <;> cases hstep
      exact h.recvRelease ‹_› ‹_›
  case granted =>
    split at hstep <;> cases hstep
    exact h.congr rfl Iff.rfl ⟨rfl, rfl⟩
  case memWrite =>
    split at hstep <;> cases hstep
    rename_i hs
    refine h.of_quiet (by rw [hs]; decide) rfl ?_ ⟨rfl, rfl⟩
    simp only [TrackerLink.memWrite, AcquireTracker.memWrite]
    split <;> decide
  case memRead =>
    split at hstep <;> cases hstep
    rename_i hs
    exact h.of_quiet (by rw [hs]; decide) rfl (l.tracker.awaitAck_ne) ⟨rfl, rfl⟩
  case makeGrant =>
    split at hstep <;> cases hstep
    rename_i hs
    exact h.of_quiet (by rw [hs]; decide) rfl (l.tracker.awaitAck_ne) ⟨rfl, rfl⟩
  case outerGrant =>
    split at hstep <;> cases hstep
    exact h.congr rfl Iff.rfl ⟨rfl, rfl⟩
  case recvAck =>
    split at hstep <;> cases hstep
    rename_i hs
    refine h.of_quiet (by rw [hs.1]; decide) rfl ?_ ⟨rfl, rfl⟩
    simp [TrackerLink.recvAck, AcquireTracker.recvAck]

end

end LogOk

theorem logOk_of_reachable :
    ∀ s, (TrackerLink.logged P n).Reachable s → LogOk s.1 s.2 := by
  refine Machine.invariant (fun s h => ?_) fun s act s' _ h hstep => ?_
  · rw [h.2]
    exact .of_isReset h.1
  · rw [hstep.2]
    exact h.step hstep.1

/-! ### Whom the tracker waits for -/

/-- What is right about the probes of a transaction: only flagged clients are probed, and once;
the tracker probes as long as one of them has not answered, and no answer to this transaction is
left when it stops; the counter is the number of answers it waits for, modulo its width, and reads
one for the last of them. -/
structure Awaited (l : TrackerLink P n) (g : ProbeLog n) : Prop where
  sent_le : ∀ c, g.sent c ≤ (g.flagged c).toNat
  answered_le : ∀ c, g.answered c ≤ g.sent c
  probing : l.tracker.state = .sProbe ↔ ∃ c, g.flagged c = true ∧ g.answered c = 0
  finished : l.tracker.state ≠ .sProbe → ∀ c,
    g.sent c = (g.flagged c).toNat ∧ g.answered c = (g.flagged c).toNat ∧ l.releases c = []
  release : ∀ c, l.releases c ≠ [] → (l.releases c).length = 1 ∧ c ∈ g.outstanding
  count : l.tracker.state = .sProbe →
    l.tracker.releaseCount = g.outstanding.card % 2 ^ log2Up n ∧
    (l.tracker.releaseCount = 1 ↔ g.outstanding.card = 1)

theorem LogOk.toAwaited {l : TrackerLink P n} {g : ProbeLog n} (h : LogOk l g) : Awaited l g where
  sent_le c := (Nat.le_add_right ..).trans (h.sent c).le
  answered_le c := by
    have := h.answered c
    omega
  probing := by
    rw [h.waits]
    exact exists_congr fun c => g.mem_outstanding
  finished hs c := by
    have hnot : c ∉ g.outstanding := fun hc => hs (h.waits.mpr ⟨c, hc⟩)
    have hquiet : ¬_ := mt h.mem_outstanding hnot
    have hsent := h.sent c
    have hans := h.answered c
    exact ⟨by omega, by omega, List.length_eq_zero_iff.mp (by omega)⟩
  release c hc := by
    have hpos := List.length_pos_iff.mpr hc
    have hsent := h.sent c
    have hans := h.answered c
    have hle := (g.flagged c).toNat_le
    exact ⟨by omega, h.mem_outstanding (by omega)⟩
  count hs := by
    obtain ⟨hn, hcount⟩ := h.count hs
    refine ⟨hcount, hcount ▸ ?_⟩
    exact mod_two_pow_eq_one_iff (hn.trans_le (le_two_pow_log2Up n)) g.card_outstanding_le

/-- **Every probed client is awaited once.** For any number of clients and of trackers, whatever is
asked, flagged and answered, and in whatever order the trackers take turns. -/
theorem TrackerLink.awaited (P : CoherencePolicy) (n m : ℕ) :
    ∀ s, ((TrackerLink.logged P n).interleave (Fin m)).Reachable s →
      ∀ t, Awaited (s t).1 (s t).2 :=
  fun _ hs t => (logOk_of_reachable _ (hs.of_interleave t)).toAwaited

/-- The link of a two-client MI agent out of reset. -/
def resetLink : TrackerLink MICoherence 2 :=
  (Sys.reset two_pos 1 MI.AcquireType.acquireReadUncached
    MI.ReleaseType.releaseInvalidateAck : Sys MICoherence 2 1).link 0

theorem isReset_resetLink : resetLink.IsReset := ⟨rfl, fun _ => rfl, fun _ => rfl, fun _ => rfl⟩

/-- An acquire that probes both clients of a two-client agent out of reset. -/
def acceptBoth : LinkAct MICoherence 2 :=
  .accept 0 ⟨MI.AcquireType.acquireReadExclusive, 0, 0⟩ fun _ => false

theorem reachable_acceptBoth : ∃ l, resetLink.step acceptBoth = some l ∧
    l.tracker.state = .sProbe ∧ ((TrackerLink.logged MICoherence 2).interleave (Fin 1)).Reachable
      (Function.update (fun _ => (resetLink, ProbeLog.empty)) 0
        (l, ProbeLog.note acceptBoth ProbeLog.empty)) := by
  have hinit : ((TrackerLink.logged MICoherence 2).interleave (Fin 1)).Reachable
      fun _ => (resetLink, ProbeLog.empty) := .init fun _ => ⟨isReset_resetLink, rfl⟩
  have hstep : ∃ l, resetLink.step acceptBoth = some l ∧ l.tracker.state = .sProbe :=
    ⟨_, rfl, rfl⟩
  obtain ⟨l, hl, hprobe⟩ := hstep
  exact ⟨l, hl, hprobe, hinit.step (a := (0, acceptBoth)) ⟨(l, _), ⟨hl, rfl⟩, rfl⟩⟩

theorem TrackerLink.awaited_accept : ∃ (l : TrackerLink MICoherence 2) (g : ProbeLog 2),
    l.tracker.state = .sProbe ∧ Awaited l g := by
  obtain ⟨l, -, hprobe, hl⟩ := reachable_acceptBoth
  exact ⟨l, _, hprobe, TrackerLink.awaited MICoherence 2 1 _ hl 0⟩

/-- Two clients of an MI agent, both probed: the first answer comes while the counter reads zero. -/
def twoProbes : List (LinkAct MICoherence 2) :=
  [.accept 0 ⟨MI.AcquireType.acquireReadExclusive, 0, 0⟩ fun _ => false, .sendProbe 0,
    .sendProbe 1, .probed 0 ⟨MI.ReleaseType.releaseInvalidateAck, 0⟩]

/-- Taking a release does not always lower the counter: it is taken from zero, and leaves one. -/
theorem not_countsDown :
    ¬∀ (s s' : TrackerLink MICoherence 2) (c : Fin 2), (TrackerLink.machine _ 2).Reachable s →
      s.step (.recvRelease c) = some s' →
      s'.tracker.releaseCount + 1 = s.tracker.releaseCount := by
  intro h
  have hrun : ∃ s s', Machine.runs TrackerLink.step twoProbes resetLink = some s ∧
      s.step (.recvRelease 0) = some s' ∧ s.tracker.releaseCount = 0 ∧
      s'.tracker.releaseCount = 1 := ⟨_, _, rfl, rfl, rfl, rfl⟩
  obtain ⟨s, s', hs, hs', hcnt, hcnt'⟩ := hrun
  have hdown := h s s' 0 (Machine.reachable_of_runs (.init isReset_resetLink) hs) hs'
  rw [hcnt, hcnt'] at hdown
  exact absurd hdown (by decide)

/-! ### The trackers of the agent -/

/-- A handshake of the agent is a step of one tracker, or of none. -/
theorem Handshake.link_step {s s' : Sys P n m} {act : Act P n m} (h : Handshake s act s') :
    s'.link = s.link ∨ ∃ t a l, (s.link t).step a = some l ∧
      s'.link = Function.update s.link t l := by
  cases h with
  | hit _ => exact .inl rfl
  | cacheControl _ _ => exact .inl rfl
  | send _ _ _ => exact .inl rfl
  | vol _ _ _ => exact .inl rfl
  | @probed t c p rest hp =>
    refine .inr ⟨t, .probed c (Sys.probeReply (s.line c p.addr) p).1, _, ?_, rfl⟩
    simp only [TrackerLink.step, hp]
  | @granted t c g rest a hg ha =>
    refine .inr ⟨t, .granted, (s.link t).granted g rest, ?_, ?_⟩
    · simp only [TrackerLink.step, hg]
    · simp only [Sys.setLink, Sys.setOutstanding, Sys.fill]
      split <;> rfl
  | @accept t c i a inc ha hidle hconf _ =>
    exact .inr ⟨t, .accept c a inc, _, if_pos hidle.1, rfl⟩
  | @sendProbe t c hst hc => exact .inr ⟨t, .sendProbe c, _, if_pos ⟨hst, hc⟩, rfl⟩
  | @recvRelease t c r rest hr hst =>
    refine .inr ⟨t, .recvRelease c, _, ?_, rfl⟩
    simp only [TrackerLink.step, hr]
    exact if_pos hst
  | @memWrite t hst => exact .inr ⟨t, .memWrite, _, if_pos hst, rfl⟩
  | @memRead t hst => exact .inr ⟨t, .memRead, _, if_pos hst, rfl⟩
  | @makeGrant t hst => exact .inr ⟨t, .makeGrant, _, if_pos hst, rfl⟩
  | @outerGrant t hst ho => exact .inr ⟨t, .outerGrant, _, if_pos ⟨hst, ho⟩, rfl⟩
  | @recvAck t hst ha => exact .inr ⟨t, .recvAck, _, if_pos ⟨hst, ha⟩, rfl⟩

/-- A run of the agent is one of its trackers taking turns. -/
theorem Sys.reachable_links {s : Sys P n m} (h : (Sys.machine P n m).Reachable s) :
    ((TrackerLink.machine P n).interleave (Fin m)).Reachable s.link := by
  induction h with
  | init h =>
    exact .init fun t => ⟨h.idle t, h.flags t, h.probes t, h.releases t⟩
  | step _ hstep ih =>
    rcases (handshake_of_step hstep).link_step with hl | ⟨t, a, l, hl, hl'⟩
    · rw [hl]
      exact ih
    · rw [hl']
      exact ih.step (a := (t, a)) ⟨l, hl, rfl⟩

end RiscvSoc
