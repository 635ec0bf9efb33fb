import Mathlib.Tactic.FinCases
import RiscvSoc.Uncore.Permission

/-!
# Single writer or multiple readers

Under MSI and MESI, two clients never hold a line in states that exclude each other, provided the
agent knows that there are clients: it chooses between a shared and an exclusive grant by the
register `init_sharer_cnt`, which is loaded with `nClients` but only `log2Up(nClients)` bits wide.
When the number of clients is a power of two it reads zero, and every reader is made the owner.
-/

namespace RiscvSoc

open Bits TrackerLink AcquireTracker

/-! ### The two policies -/

/-- The states in which a client believes to be alone. -/
def MSI.isExclusive (st : MSI.ClientState) : Bool := st == .tileExclusiveDirty

def MESI.isExclusive (st : MESI.ClientState) : Bool :=
  st == .tileExclusiveClean || st == .tileExclusiveDirty

/-- The policies with a shared state. -/
inductive SharingPolicy
  | msi | mesi
  deriving DecidableEq, Repr

namespace SharingPolicy

def policy : SharingPolicy → CoherencePolicy
  | msi => MSICoherence
  | mesi => MESICoherence

def permissions : (p : SharingPolicy) → Permissions p.policy
  | msi => MSI.permissions
  | mesi => MESI.permissions

def isExclusive : (p : SharingPolicy) → p.policy.ClientState → Bool
  | msi => MSI.isExclusive
  | mesi => MESI.isExclusive

theorem acks (p : SharingPolicy) : p.policy.Acks := by
  intro a cnt
  have hack : ∀ a, Sharing.getGrantType a cnt ≠ .grantVoluntaryAck := by
    intro a
    cases a
    case acquireReadShared =>
      simp only [Sharing.getGrantType]
      split <;> decide
    all_goals exact fun h => Sharing.GrantType.noConfusion h
  cases p <;> exact bne_iff_ne.mpr (hack a)

theorem level_of_isExclusive (p : SharingPolicy) {st : p.policy.ClientState}
    (h : p.isExclusive st = true) : p.permissions.level st = 2 := by
  cases p <;> cases st <;> first | rfl | exact absurd h (by decide)

/-- A grant that fills a cache leaves room for what its probes left to the others, as long as the
agent counts at least one sharer. -/
theorem level_grant_add_cap (p : SharingPolicy) {a : p.policy.AcquireType} {cnt : ℕ}
    (hcnt : 0 < cnt) (hunc : ¬p.policy.messageIsUncached a = true) :
    p.permissions.level (p.policy.newStateOnGrant (p.policy.getGrantType a cnt) a)
      + p.permissions.cap (p.policy.getProbeType a) ≤ 2 := by
  have hshared : Sharing.getGrantType .acquireReadShared cnt = .grantReadShared := if_pos hcnt
  cases p <;> cases a
  case msi.acquireReadShared =>
    change MSI.level (MSICoherence.newStateOnGrant (Sharing.getGrantType .acquireReadShared cnt)
      Sharing.AcquireType.acquireReadShared) + 1 ≤ 2
    rw [hshared]
    decide
  case mesi.acquireReadShared =>
    change MESI.level (MESICoherence.newStateOnGrant (Sharing.getGrantType .acquireReadShared cnt)
      Sharing.AcquireType.acquireReadShared) + 1 ≤ 2
    rw [hshared]
    decide
  case msi.acquireReadExclusive => exact Nat.le_refl 2
  case mesi.acquireReadExclusive => exact Nat.le_refl 2
  all_goals exact absurd rfl hunc

end SharingPolicy

variable {n m : ℕ} {p : SharingPolicy}

/-- If a client holds a line in an exclusive state, nobody else holds it at all. -/
def SingleWriter (p : SharingPolicy) (s : Sys p.policy n m) : Prop :=
  ∀ addr c c', c ≠ c' → p.isExclusive (s.line c addr) = true →
    p.policy.isValid (s.line c' addr) = false

/-! ### While the sharer count survives -/

/-- The ranks two clients hold of a line add up to at most one owner or two readers. -/
def Compatible {P : CoherencePolicy} (π : Permissions P) (s : Sys P n m) : Prop :=
  ∀ addr c c', c ≠ c' → π.level (s.line c addr) + π.level (s.line c' addr) ≤ 2

theorem Compatible.lower {P : CoherencePolicy} {π : Permissions P} {s s' : Sys P n m}
    (h : Compatible π s) (hle : ∀ c addr, π.level (s'.line c addr) ≤ π.level (s.line c addr)) :
    Compatible π s' := fun addr c c' hne =>
  (Nat.add_le_add (hle c addr) (hle c' addr)).trans (h addr c c' hne)

theorem Compatible.singleWriter {s : Sys p.policy n m} (h : Compatible p.permissions s) :
    SingleWriter p s := by
  intro addr c c' hne hexcl
  have hsum := h addr c c' hne
  rw [p.level_of_isExclusive hexcl] at hsum
  exact (p.permissions.level_eq_zero _).mp (by omega)

/-- Filling one line, when everybody is down to `b` and the new state leaves room for that. -/
theorem Compatible.fill {P : CoherencePolicy} {π : Permissions P} {s : Sys P n m}
    (h : Compatible π s) {c : Fin n} {a : Acquire P} {g : P.GrantType} {b : ℕ}
    (hother : ∀ c', π.level (s.line c' a.addr) ≤ b)
    (hroom : π.level (P.newStateOnGrant g a.aType) + b ≤ 2)
    (hunc : ¬P.messageIsUncached a.aType = true) : Compatible π (s.fill c a g) := by
  have hfill : s.fill c a g = s.setLine c a.addr (P.newStateOnGrant g a.aType) := if_neg hunc
  rw [hfill]
  intro addr c₁ c₂ hne
  by_cases haddr : addr = a.addr
  · subst haddr
    have hself : (s.setLine c a.addr (P.newStateOnGrant g a.aType)).line c a.addr
        = P.newStateOnGrant g a.aType := Sys.update₂_self ..
    have hsame : ∀ c', c' ≠ c → (s.setLine c a.addr (P.newStateOnGrant g a.aType)).line c' a.addr
        = s.line c' a.addr := fun c' hc' => Sys.update₂_of_ne fun heq => hc' heq.1
    by_cases h1 : c₁ = c
    · subst h1
      rw [hself, hsame c₂ hne.symm]
      exact (Nat.add_le_add_left (hother c₂) _).trans hroom
    · by_cases h2 : c₂ = c
      · subst h2
        rw [hself, hsame c₁ hne, Nat.add_comm]
        exact (Nat.add_le_add_left (hother c₁) _).trans hroom
      · rw [hsame c₁ h1, hsame c₂ h2]
        exact h a.addr c₁ c₂ hne
  · have hsame : ∀ c', (s.setLine c a.addr (P.newStateOnGrant g a.aType)).line c' addr
        = s.line c' addr := fun c' => Sys.update₂_of_ne fun heq => haddr heq.2
    rw [hsame, hsame]
    exact h addr c₁ c₂ hne

/-- With at least two clients everybody coherent is probed, so the bound of the probe holds for all
who are done. -/
theorem acceptOk_cap {P : CoherencePolicy} (π : Permissions P) (hn : 1 < n) {s s' : Sys P n m}
    {act : Act P n m} (hs : Handshake s act s') :
    AcceptOk π (fun a => π.cap (P.getProbeType a)) s act := by
  cases act
  case accept t c i inc =>
    intro a ha c'
    rcases hinc : inc c' with _ | _
    · exact .inr ⟨by simp [probeInitialFlags, hn, hinc], le_rfl⟩
    · cases hs with
      | send _ _ hne => exact absurd rfl (hne t c i inc)
      | vol _ _ hne => exact absurd rfl (hne t c i inc)
      | @accept _ _ _ a' _ ha' _ _ hguard =>
        obtain rfl : a' = a := Option.some.inj (ha'.symm.trans ha)
        refine .inl ?_
        rw [(π.level_eq_zero _).mpr (hguard c' hinc)]
        exact Nat.zero_le _
  all_goals trivial

/-- **The step lemma.** Only a grant raises a rank, and it leaves room for everybody else's. -/
theorem Compatible.step {s s' : Sys p.policy n m} {act : Act p.policy n m}
    (hcnt : n % 2 ^ log2Up n ≠ 0) (hok : SysOk s)
    (hpr : Probed p.permissions (fun a => p.permissions.cap (p.policy.getProbeType a)) s)
    (h : Compatible p.permissions s) (hs : Handshake s act s') : Compatible p.permissions s' := by
  set π := p.permissions
  cases hs with
  | hit hhit => exact h.lower (π.setLine_le (π.hit_le _ _ hhit))
  | cacheControl _ hv => exact h.lower (π.setLine_le (π.cacheControl_le _ _ hv))
  | probed _ => exact h.lower (π.setLine_le (π.probeReply_le _ _).1)
  | @granted t c g rest a hg ha =>
    obtain ⟨hun, rfl, rfl, hout⟩ := hok.of_grants hg
    obtain rfl : a = (s.link t).tracker.xact := Option.some.inj (ha.symm.trans hout)
    by_cases hunc : p.policy.messageIsUncached (s.link t).tracker.xact.aType = true
    · refine h.lower fun c' addr => le_of_eq ?_
      simp only [Sys.setLink, Sys.setOutstanding, Sys.fill, if_pos hunc]
    · have hbusy := ((hok.link t).of_grants hg).1
      have hother := hpr.level_le hok ⟨hun.1, .inl hun.2⟩ (by rw [hbusy]; decide)
      have hsharers : (s.link t).tracker.initSharerCnt = n % 2 ^ log2Up n :=
        (hok.link t).sharers hun.1
      have hroom := p.level_grant_add_cap (Nat.pos_of_ne_zero hcnt) hunc
      rw [← hsharers] at hroom
      exact (h.fill hother hroom hunc).lower fun _ _ => le_rfl
  | _ => exact h

/-- **Single writer or multiple readers**, while the sharer count is not truncated to zero. -/
theorem singleWriter_of_count (hcnt : n % 2 ^ log2Up n ≠ 0) :
    ∀ s, (Sys.machine p.policy n m).Reachable s → SingleWriter p s := by
  intro s hs addr c c' hne hexcl
  have hn : 1 < n := by
    by_contra hle
    exact hne (Fin.ext (by omega))
  have hinv : ∀ s, (Sys.machine p.policy n m).Reachable s →
      Probed p.permissions (fun a => p.permissions.cap (p.policy.getProbeType a)) s ∧
        Compatible p.permissions s := by
    refine Machine.invariant (fun s h => ⟨.of_isReset h, fun addr c c' _ => ?_⟩) ?_
    · rw [h.line, h.line, p.permissions.flush]
      exact Nat.zero_le 2
    · intro s act s' hr ⟨hpr, hcompat⟩ hstep
      have hok := sysOk_of_reachable p.acks s hr
      have hhs := handshake_of_step hstep
      exact ⟨hpr.step p.acks hok (acceptOk_cap _ hn hhs) hhs, hcompat.step hcnt hok hpr hhs⟩
  exact (hinv s hs).2.singleWriter addr c c' hne hexcl

/-! ### Where it is -/

section Run

variable {P : CoherencePolicy}

theorem log2Up_two_pow {k : ℕ} (hk : 1 ≤ k) : log2Up (2 ^ k) = k := by
  have hpos : 2 ^ (k - 1) < 2 ^ k := Nat.pow_lt_pow_right Nat.one_lt_two (by omega)
  have h := log2Up_eq hpos (Nat.pow_le_pow_right two_pos (by omega) : 2 ^ k ≤ 2 ^ (k - 1 + 1))
  omega

/-- The count is truncated to zero exactly for the powers of two, one excepted. -/
theorem count_eq_zero_iff (hn : 0 < n) : n % 2 ^ log2Up n = 0 ↔ ∃ k, 1 ≤ k ∧ n = 2 ^ k := by
  constructor
  · intro h
    have hle := le_two_pow_log2Up n
    have heq : n = 2 ^ log2Up n := by
      rcases Nat.lt_or_ge n (2 ^ log2Up n) with hlt | hge
      · rw [Nat.mod_eq_of_lt hlt] at h
        omega
      · exact le_antisymm hle hge
    refine ⟨log2Up n, ?_, heq⟩
    by_contra hk
    rw [show log2Up n = 0 by omega] at heq
    rw [heq] at hk
    exact hk (by decide)
  · rintro ⟨k, hk, rfl⟩
    rw [log2Up_two_pow hk, Nat.mod_self]

/-- A transaction that only waits for memory is served: its requester's line is filled, and the
tracker is idle again. -/
theorem exists_served (hP : P.Acks) {s : Sys P n m} {t : Fin m} {c : Fin n} {a : Acquire P}
    (hs : (Sys.machine P n m).Reachable s) (hst : (s.link t).tracker.state = .sMemRead)
    (hc : (s.link t).tracker.initClientId = c) (ha : (s.link t).tracker.xact = a)
    (hunc : P.messageIsUncached a.aType = false) :
    ∃ s', (Sys.machine P n m).Reachable s' ∧
      s'.line c a.addr = P.newStateOnGrant (s.link t).tracker.grantType a.aType ∧
      (∀ c' addr, ¬(c' = c ∧ addr = a.addr) → s'.line c' addr = s.line c' addr) ∧
      (∀ c', c' ≠ c → s'.outstanding c' = s.outstanding c') ∧
      (s'.link t).tracker.state = .sIdle ∧ ∀ t', t' ≠ t → s'.link t' = s.link t' := by
  subst hc ha
  have hok := sysOk_of_reachable hP s hs
  obtain ⟨-, hgr, hack⟩ := (hok.link t).waiting (by rw [hst]; decide)
  have hout := (hok.owner t ⟨by rw [hst]; decide, hack⟩).1
  obtain ⟨s₁, h₁, hl₁, hline₁, hout₁, hoth₁⟩ : ∃ s', (Sys.machine P n m).Reachable s' ∧
      s'.link t = (s.link t).memRead ∧ s'.line = s.line ∧ s'.outstanding = s.outstanding ∧
      ∀ t', t' ≠ t → s'.link t' = s.link t' :=
    ⟨_, hs.exec (.memRead t) (if_pos hst), Sys.setLink_link_self .., rfl, rfl,
      fun t' hne => Sys.setLink_link_of_ne _ hne _⟩
  have hbusy₁ : (s₁.link t).tracker.state = .sBusy := hl₁ ▸ LinkOk.awaitAck_state hP _
  obtain ⟨s₂, h₂, hl₂, hline₂, hout₂, hoth₂⟩ : ∃ s', (Sys.machine P n m).Reachable s' ∧
      s'.link t = (s₁.link t).outerGrant ∧ s'.line = s₁.line ∧ s'.outstanding = s₁.outstanding ∧
      ∀ t', t' ≠ t → s'.link t' = s₁.link t' :=
    ⟨_, h₁.exec (.outerGrant t) (if_pos ⟨hbusy₁, by rw [hl₁]; rfl⟩), Sys.setLink_link_self .., rfl,
      rfl, fun t' hne => Sys.setLink_link_of_ne _ hne _⟩
  have hgr₂ : (s₂.link t).grants = [(s.link t).tracker.grant] := by
    rw [hl₂, hl₁]
    show (s.link t).grants ++ [(s.link t).tracker.grant] = _
    rw [hgr, List.nil_append]
  have hout₂' : s₂.outstanding (s.link t).tracker.initClientId
      (s.link t).tracker.grant.2.clientXactId = some (s.link t).tracker.xact := by
    rw [hout₂, hout₁]
    exact hout
  obtain ⟨s₃, h₃, hl₃, hline₃, hout₃, hoth₃⟩ : ∃ s', (Sys.machine P n m).Reachable s' ∧
      s'.link t = (s₂.link t).granted (s.link t).tracker.grant.2 [] ∧
      s'.line = (s₂.fill (s.link t).tracker.initClientId (s.link t).tracker.xact
        (s.link t).tracker.grantType).line ∧
      s'.outstanding = (s₂.setOutstanding (s.link t).tracker.initClientId
        (s.link t).tracker.xact.clientXactId none).outstanding ∧
      ∀ t', t' ≠ t → s'.link t' = s₂.link t' := by
    refine ⟨((s₂.fill (s.link t).tracker.initClientId (s.link t).tracker.xact
        (s.link t).tracker.grantType).setOutstanding (s.link t).tracker.initClientId
        (s.link t).tracker.xact.clientXactId none).setLink t
          ((s₂.link t).granted (s.link t).tracker.grant.2 []),
      h₂.exec (.granted t) ?_, Sys.setLink_link_self .., rfl, ?_, fun t' hne => ?_⟩
    · simp only [Sys.step, hgr₂]
      rw [show (s.link t).tracker.grant = (_, (s.link t).tracker.grant.2) from rfl]
      simp only [hout₂']
      rfl
    · simp only [Sys.setLink, Sys.setOutstanding, Sys.fill]
      split <;> rfl
    · refine (Sys.setLink_link_of_ne _ hne _).trans ?_
      simp only [Sys.setOutstanding, Sys.fill]
      split <;> rfl
  have hst₃ : (s₃.link t).tracker.state = .sBusy ∧ 0 < (s₃.link t).acks := by
    have hack₃ : (s₃.link t).acks = 1 := by
      rw [hl₃, hl₂, hl₁]
      simp [TrackerLink.granted, TrackerLink.outerGrant, TrackerLink.memRead, hack,
        show P.requiresAckForGrant (s.link t).tracker.grant.2.gType = true from hP _ _]
    exact ⟨by rw [hl₃]; exact hl₂ ▸ hbusy₁, by omega⟩
  have hline : s₃.line = (s.setLine (s.link t).tracker.initClientId
      (s.link t).tracker.xact.addr
      (P.newStateOnGrant (s.link t).tracker.grantType (s.link t).tracker.xact.aType)).line := by
    rw [hline₃, Sys.fill, hunc]
    simp only [Sys.setLine, hline₂, hline₁]
    rfl
  refine ⟨s₃.setLink t (s₃.link t).recvAck, h₃.exec (.recvAck t) (if_pos hst₃), ?_,
    fun c' addr hne => ?_, fun c' hne => ?_, ?_, fun t' hne => ?_⟩
  · exact (congrFun (congrFun hline _) _).trans (Sys.update₂_self ..)
  · exact (congrFun (congrFun hline _) _).trans (Sys.update₂_of_ne hne)
  · show s₃.outstanding c' = _
    rw [hout₃, ← hout₁, ← hout₂]
    exact Function.update_of_ne hne ..
  · rw [Sys.setLink_link_self]
    rfl
  · rw [Sys.setLink_link_of_ne _ hne, hoth₃ t' hne, hoth₂ t' hne, hoth₁ t' hne]

/-- A client's acquire is taken by tracker `t`, which is idle and the first one. -/
theorem exists_accepted {s : Sys P n m} {t : Fin m} {c : Fin n} {a : Acquire P}
    (hs : (Sys.machine P n m).Reachable s) (hidle : ∀ t', (s.link t').tracker.state = .sIdle)
    (ht : ∀ t', ¬t' < t) (hask : ∃ act, Sys.step act s = some (s.sendAcquire c a))
    (inc : Fin n → Bool) (hinc : ∀ c', inc c' = true → P.isValid (s.line c' a.addr) = false) :
    ∃ s', (Sys.machine P n m).Reachable s' ∧ s'.line = s.line ∧
      s'.link t = (s.link t).accept c a inc ∧ (∀ t', t' ≠ t → s'.link t' = s.link t') ∧
      ∀ c', c' ≠ c → s'.outstanding c' = s.outstanding c' := by
  obtain ⟨act, hact⟩ := hask
  have h₁ : (Sys.machine P n m).Reachable (s.sendAcquire c a) := hs.exec act hact
  have hacq : (s.sendAcquire c a).acquires c a.clientXactId = some a := Sys.update₂_self ..
  have hfirst : (s.sendAcquire c a).IsFirstIdle t := ⟨hidle t, fun t' hlt => absurd hlt (ht t')⟩
  have hconf : ¬(s.sendAcquire c a).AcquireConflict a.addr := fun ⟨t', hne, _⟩ => hne (hidle t')
  refine ⟨((s.sendAcquire c a).setAcquires c a.clientXactId none).setLink t
      ((s.link t).accept c a inc), h₁.exec (.accept t c a.clientXactId inc) ?_, rfl,
    Sys.setLink_link_self ..,
    fun t' hne => Sys.setLink_link_of_ne _ hne _, fun c' hne => ?_⟩
  · simp only [Sys.step, hacq]
    exact if_pos ⟨hfirst, hconf, hinc⟩
  · exact Function.update_of_ne hne ..

/-- A tracker that has only client `c` to probe probes it and is done. -/
theorem exists_probed (hP : P.Acks) {s : Sys P n m} {t : Fin m} {c : Fin n}
    (hs : (Sys.machine P n m).Reachable s) (hst : (s.link t).tracker.state = .sProbe)
    (hflag : ∀ c', (s.link t).tracker.probeFlags c' = decide (c' = c))
    (hone : ∑ c', (s.link t).pending c' = 1) :
    ∃ s', (Sys.machine P n m).Reachable s' ∧
      s'.line = (s.setLine c (s.link t).tracker.xact.addr (Sys.probeReply
        (s.line c (s.link t).tracker.xact.addr) (s.link t).tracker.probe).2).line ∧
      (s'.link t).tracker = { (s.link t).tracker.sendProbe c with
        releaseCount := (s'.link t).tracker.releaseCount
        state := (s.link t).tracker.afterProbe } := by
  have hok := (sysOk_of_reachable hP s hs).link t
  have hc : (s.link t).tracker.probeFlags c = true := by rw [hflag, decide_eq_true rfl]
  obtain ⟨hprobes, hrels⟩ : (s.link t).probes c = [] ∧ (s.link t).releases c = [] := by
    have hle := hok.pending_le c
    rw [pending, hc, Bool.toNat_true] at hle
    exact ⟨List.length_eq_zero_iff.mp (by omega), List.length_eq_zero_iff.mp (by omega)⟩
  have hcount : (s.link t).tracker.releaseCount = 1 := by
    obtain ⟨hn, hcount⟩ := hok.count hst
    have hpow := le_two_pow_log2Up n
    rw [hcount, hone, Nat.mod_eq_of_lt (by omega)]
  have hcur : (s.link t).tracker.IsCurrPId c :=
    ⟨hc, fun c' hlt => by rw [hflag, decide_eq_false hlt.ne]⟩
  set pr := (s.link t).tracker.probe
  set l₁ := (s.link t).sendProbe c
  have hpr₁ : l₁.probes c = [pr] := by
    show Function.update (s.link t).probes c ((s.link t).probes c ++ [pr]) c = [pr]
    rw [Function.update_self, hprobes, List.nil_append]
  obtain ⟨s₁, hs₁, hline₁, hlink₁⟩ : ∃ s', (Sys.machine P n m).Reachable s' ∧
      s'.line = s.line ∧ s'.link t = l₁ :=
    ⟨s.setLink t l₁, hs.exec (.sendProbe t c) (if_pos ⟨hst, hcur⟩), rfl, Sys.setLink_link_self ..⟩
  set reply := Sys.probeReply (s.line c pr.addr) pr
  obtain ⟨s₂, hs₂, hline₂, hlink₂⟩ : ∃ s', (Sys.machine P n m).Reachable s' ∧
      s'.line = (s.setLine c pr.addr reply.2).line ∧ s'.link t = l₁.probed c [] reply.1 := by
    refine ⟨(s₁.setLine c pr.addr reply.2).setLink t (l₁.probed c [] reply.1),
      hs₁.exec (.probed t c) ?_, ?_, Sys.setLink_link_self ..⟩
    · simp only [Sys.step, hlink₁, hpr₁]
      rw [hline₁]
    · simp only [Sys.setLink, Sys.setLine, hline₁]
  have hrel₂ : (s₂.link t).releases c = [reply.1] := by
    rw [hlink₂]
    show Function.update (s.link t).releases c ((s.link t).releases c ++ [reply.1]) c = _
    rw [Function.update_self, hrels, List.nil_append]
  have hst₂ : (s₂.link t).tracker.state = .sProbe := by
    rw [hlink₂]
    exact hst
  refine ⟨s₂.setLink t ((s₂.link t).recvRelease c []), hs₂.exec (.recvRelease t c) ?_, hline₂, ?_⟩
  · simp only [Sys.step, hrel₂, hst₂, if_true]
  · rw [Sys.setLink_link_self, hlink₂]
    simp only [TrackerLink.recvRelease, AcquireTracker.recvRelease, TrackerLink.probed, l₁,
      TrackerLink.sendProbe, AcquireTracker.sendProbe, hcount, if_true]
    rfl

/-- **Two owners' worth of readers.** With a truncated count the second reader is told that it is
alone, while the first one keeps its copy. -/
theorem exists_not_singleWriter (hcnt : n % 2 ^ log2Up n = 0) (hn : 1 < n) (hm : 0 < m) :
    ∃ s, (Sys.machine p.policy n m).Reachable s ∧ ¬SingleWriter p s := by
  let t : Fin m := ⟨0, hm⟩
  let c₀ : Fin n := ⟨0, by omega⟩
  let c₁ : Fin n := ⟨1, hn⟩
  have hc : c₁ ≠ c₀ := fun h => absurd (congrArg Fin.val h) one_ne_zero
  have ht : ∀ t' : Fin m, ¬t' < t := fun t' hlt => Nat.not_lt_zero _ (Fin.lt_def.mp hlt)
  obtain ⟨a, hatype⟩ : ∃ a : Acquire p.policy, a = ⟨missType p.policy .xrd [], 0, 0⟩ := ⟨_, rfl⟩
  have haddr : a.addr = 0 := by rw [hatype]
  have hunc : p.policy.messageIsUncached a.aType = false := by rw [hatype]; cases p <;> rfl
  have hafter : ∀ x : AcquireTracker p.policy n, x.xact = a → x.afterProbe = .sMemRead := by
    intro x hx
    rw [afterProbe, pendingOuterWrite,
      pendingOuterRead, hx, hatype]
    cases p <;> rfl
  have hgrant : ∀ x : AcquireTracker p.policy n, x.xact = a → x.initSharerCnt = 0 →
      p.isExclusive (p.policy.newStateOnGrant x.grantType a.aType) = true := by
    intro x hx h0
    rw [grantType, hx, h0, hatype]
    cases p <;> rfl
  have hdown : ∀ st, p.isExclusive st = true → p.policy.isValid
      (Sys.probeReply st (⟨p.policy.getProbeType a.aType, 0⟩ : Probe p.policy)).2 = true := by
    intro st hst
    rw [hatype]
    cases p <;> cases st <;> first | rfl | exact absurd hst (by decide)
  have hflush : p.policy.isValid p.policy.newStateOnFlush = false :=
    (p.permissions.level_eq_zero _).mp p.permissions.flush
  have hmiss : ∀ s : Sys p.policy n m, ∀ c, s.line c 0 = p.policy.newStateOnFlush →
      s.outstanding c 0 = none → Sys.step (.miss c 0 0 .xrd []) s = some (s.sendAcquire c a) := by
    intro s c hline hout
    have hmissed : p.policy.isHit .xrd p.policy.newStateOnFlush = false := by cases p <;> rfl
    simp only [Sys.step, hline, hout, hatype]
    exact if_pos ⟨rfl, hmissed⟩
  -- The first reader, with every client incoherent: nobody is probed.
  obtain ⟨s₀, hs₀, hreset⟩ : ∃ s, (Sys.machine p.policy n m).Reachable s ∧ s.IsReset :=
    ⟨_, .init (Sys.isReset_reset (by omega : 0 < n) a.aType
      (p.policy.getReleaseTypeOnCacheControl .inv)), Sys.isReset_reset _ _ _⟩
  obtain ⟨s₁, hs₁, hline₁, hlink₁, hoth₁, hout₁⟩ := exists_accepted hs₀ hreset.idle ht
    ⟨_, hmiss s₀ c₀ (hreset.line _ _) (hreset.outstanding _ _)⟩ (fun _ => true)
    fun c' _ => by rw [hreset.line]; exact hflush
  have hst₁ : (s₁.link t).tracker.state = .sMemRead := by
    rw [hlink₁]
    refine (if_neg ?_).trans (hafter _ rfl)
    rintro ⟨c', hc'⟩
    simp [probeInitialFlags] at hc'
  obtain ⟨s₂, hs₂, hfill₂, hline₂, hout₂, hidle₂, hoth₂⟩ := @exists_served _ _ _ p.acks _ _ c₀ a
    hs₁ hst₁ (by rw [hlink₁]; rfl) (by rw [hlink₁]; rfl) hunc
  have hexcl₂ : p.isExclusive (s₂.line c₀ 0) = true := by
    rw [← haddr, hfill₂, hlink₁]
    exact hgrant _ rfl hcnt
  have hrest₂ : ∀ c', c' ≠ c₀ → s₂.line c' 0 = p.policy.newStateOnFlush := fun c' hne => by
    rw [hline₂ c' 0 fun h => hne h.1, hline₁, hreset.line]
  have hall₂ : ∀ t', (s₂.link t').tracker.state = .sIdle := by
    intro t'
    by_cases htt : t' = t
    · rw [htt, hidle₂]
    · rw [hoth₂ t' htt, hoth₁ t' htt, hreset.idle]
  -- The second reader: only the first one is probed.
  let inc : Fin n → Bool := fun c => decide (c ≠ c₀)
  obtain ⟨s₃, hs₃, hline₃, hlink₃, -, -⟩ := exists_accepted hs₂ hall₂ ht
    ⟨_, hmiss s₂ c₁ (hrest₂ c₁ hc) (by rw [hout₂ c₁ hc, hout₁ c₁ hc, hreset.outstanding])⟩ inc
    fun c' hc' => by
      rw [haddr, hrest₂ c' (of_decide_eq_true hc')]
      exact hflush
  have hflags : ∀ c, probeInitialFlags inc c = decide (c = c₀) := by
    intro c
    simp [probeInitialFlags, inc, hn]
  have hst₃ : (s₃.link t).tracker.state = .sProbe := by
    rw [hlink₃]
    exact if_pos ⟨c₀, by rw [hflags, decide_eq_true rfl]⟩
  have hone₃ : ∑ c, (s₃.link t).pending c = 1 := by
    have hquiet := ((sysOk_of_reachable p.acks s₂ hs₂).link t).quiet_channels
      (by rw [hidle₂]; decide)
    have hpend : ∀ c, (s₃.link t).pending c = if c = c₀ then 1 else 0 := fun c => by
      have hf : (s₃.link t).tracker.probeFlags c = decide (c = c₀) := by rw [hlink₃]; exact hflags c
      have hp : (s₃.link t).probes c = [] := by rw [hlink₃]; exact (hquiet c).2.1
      have hr : (s₃.link t).releases c = [] := by rw [hlink₃]; exact (hquiet c).2.2
      rw [pending, hf, hp, hr]
      by_cases h : c = c₀ <;> simp [h]
    simp [hpend]
  obtain ⟨s₄, hs₄, hline₄, hlink₄⟩ := exists_probed p.acks hs₃ hst₃
    (fun c => by rw [hlink₃]; exact hflags c) hone₃
  have hxact₄ : (s₄.link t).tracker.xact = a := by rw [hlink₄, hlink₃]; rfl
  have hst₄ : (s₄.link t).tracker.state = .sMemRead := by
    rw [hlink₄]
    exact hafter _ (by rw [hlink₃]; rfl)
  obtain ⟨s₅, hs₅, hfill₅, hline₅, -⟩ := @exists_served _ _ _ p.acks _ _ c₁ a
    hs₄ hst₄ (by rw [hlink₄, hlink₃]; rfl) hxact₄ hunc
  refine ⟨s₅, hs₅, fun hsw => ?_⟩
  have hexcl₅ : p.isExclusive (s₅.line c₁ 0) = true := by
    rw [← haddr, hfill₅]
    exact hgrant _ hxact₄ (by rw [hlink₄, hlink₃]; exact hcnt)
  have hvalid₅ : p.policy.isValid (s₅.line c₀ 0) = true := by
    have hp : (s₃.link t).tracker.probe = ⟨p.policy.getProbeType a.aType, 0⟩ := by
      rw [hlink₃, ← haddr]
      rfl
    have hx : (s₃.link t).tracker.xact.addr = 0 := by rw [hlink₃, ← haddr]; rfl
    rw [hline₅ c₀ 0 fun h => hc.symm h.1, hline₄, hx, hp, Sys.setLine_line_self, hline₃]
    exact hdown _ hexcl₂
  exact absurd (hsw 0 c₁ c₀ hc hexcl₅) (by rw [hvalid₅]; decide)

end Run

/-- **Single writer or multiple readers.** Under MSI and MESI the invariant holds in every run if
and only if the number of clients is not a power of two above one. -/
theorem singleWriter_iff (p : SharingPolicy) {n m : ℕ} (hn : 0 < n) (hm : 0 < m) :
    (∀ s, (Sys.machine p.policy n m).Reachable s → SingleWriter p s) ↔
      ¬∃ k, 1 ≤ k ∧ n = 2 ^ k := by
  rw [← count_eq_zero_iff hn]
  constructor
  · intro h hcnt
    have hn1 : 1 < n := by
      by_contra hle
      obtain ⟨k, hk, heq⟩ := (count_eq_zero_iff hn).mp hcnt
      have hpow : 2 ^ 1 ≤ 2 ^ k := Nat.pow_le_pow_right two_pos hk
      omega
    obtain ⟨s, hs, hnot⟩ := @exists_not_singleWriter n m p hcnt hn1 hm
    exact hnot (h s hs)
  · exact fun hcnt => singleWriter_of_count hcnt

/-- Three clients are no power of two. -/
theorem singleWriter_iff_three :
    (∀ s, (Sys.machine MESICoherence 3 1).Reachable s → SingleWriter .mesi s) ↔
      ¬∃ k, 1 ≤ k ∧ 3 = 2 ^ k :=
  singleWriter_iff .mesi (by decide) (by decide)

/-- Both clients read line `0` in turn, each transaction running to its end. -/
def twoReads : List (Act MESICoherence 2 1) :=
  [.miss 0 0 0 .xrd [], .accept 0 0 0 fun _ => false, .sendProbe 0 0, .sendProbe 0 1,
    .probed 0 0, .probed 0 1, .recvRelease 0 0, .recvRelease 0 1, .memRead 0, .outerGrant 0,
    .granted 0, .recvAck 0,
    .miss 1 0 0 .xrd [], .accept 0 1 0 fun _ => false, .sendProbe 0 0, .sendProbe 0 1,
    .probed 0 0, .probed 0 1, .recvRelease 0 0, .recvRelease 0 1, .memRead 0, .outerGrant 0,
    .granted 0, .recvAck 0]

/-- Two clients, none incoherent, one line: the first reader is left shared and the second is told
that it is exclusive. -/
theorem not_singleWriter_two :
    ¬∀ s, (Sys.machine MESICoherence 2 1).Reachable s → SingleWriter .mesi s := by
  intro h
  have hrun : ∃ s, Machine.runs Sys.step twoReads (Sys.reset two_pos 1
      Sharing.AcquireType.acquireReadShared ReleaseType.releaseInvalidateAck) = some s ∧
      s.line 1 0 = MESI.ClientState.tileExclusiveClean ∧
      s.line 0 0 = MESI.ClientState.tileShared := ⟨_, rfl, rfl, rfl⟩
  obtain ⟨s, hs, h1, h0⟩ := hrun
  have hreach := Machine.reachable_of_runs (.init (Sys.isReset_reset ..)) hs
  have hvalid := h s hreach 0 1 0 (by decide) (by rw [h1]; rfl)
  rw [h0] at hvalid
  exact absurd hvalid (by decide)

end RiscvSoc
