import RiscvSoc.Uncore.L2Invariant

/-!
# Permissions

The states of every policy are ranked by what they permit: nothing, reading beside others, being
the only one. All that a client does by itself (hits, cache control, answering a probe) can only
lower the rank of its line; a grant is the only thing that raises one.

So, as long as a transaction has not been served, the ranks of its line are bounded for every client
that is no longer pending: `Probed`. What the bound is, and why it holds when the
transaction starts, is left to the caller.
-/

namespace RiscvSoc

open TrackerLink

/-- A ranking of the client states: `0` for no copy, `1` for one of several, `2` for the only one.
`cap p` is the most that is left after the probe `p`. -/
structure Permissions (P : CoherencePolicy) where
  level : P.ClientState → ℕ
  cap : P.ProbeType → ℕ
  level_le : ∀ st, level st ≤ 2
  level_eq_zero : ∀ st, level st = 0 ↔ P.isValid st = false
  flush : level P.newStateOnFlush = 0
  hit_le : ∀ cmd st, P.isHit cmd st = true → level (P.newStateOnHit cmd st) ≤ level st
  cacheControl_le : ∀ cmd st, P.isValid st = true → level (P.newStateOnCacheControl cmd) ≤ level st
  probe_le : ∀ p st, P.isValid st = true → level (P.newStateOnProbe p st) ≤ level st
  probe_le_cap : ∀ p st, P.isValid st = true → level (P.newStateOnProbe p st) ≤ cap p
  cap_invalidate : cap P.probeInvalidate = 0

/-! ### The policies -/

def MI.level : MI.ClientState → ℕ
  | .tileInvalid => 0
  | .tileValid => 2

def MI.permissions : Permissions MICoherence where
  level := MI.level
  cap
    | .probeInvalidate => 0
    | .probeCopy => 2
  level_le st := by cases st <;> decide
  level_eq_zero st := by cases st <;> decide
  flush := rfl
  hit_le _ _ _ := le_rfl
  cacheControl_le cmd st h := by
    cases st <;> cases cmd <;> first | decide | exact absurd h (by decide)
  probe_le p st h := by cases st <;> cases p <;> decide
  probe_le_cap p st h := by cases st <;> cases p <;> decide
  cap_invalidate := rfl

def MEI.level : MEI.ClientState → ℕ
  | .tileInvalid => 0
  | .tileExclusiveClean => 2
  | .tileExclusiveDirty => 2

def MEI.permissions : Permissions MEICoherence where
  level := MEI.level
  cap
    | .probeInvalidate => 0
    | .probeDowngrade => 2
    | .probeCopy => 2
  level_le st := by cases st <;> decide
  level_eq_zero st := by cases st <;> decide
  flush := rfl
  hit_le cmd st h := by cases st <;> cases cmd <;> first | decide | exact absurd h (by decide)
  cacheControl_le cmd st h := by
    cases st <;> cases cmd <;> first | decide | exact absurd h (by decide)
  probe_le p st h := by cases st <;> cases p <;> first | decide | exact absurd h (by decide)
  probe_le_cap p st h := by cases st <;> cases p <;> decide
  cap_invalidate := rfl

/-- The ranks of the probes of MSI and MESI. -/
def Sharing.cap : ProbeType → ℕ
  | .probeInvalidate => 0
  | .probeDowngrade => 1
  | .probeCopy => 2

def MSI.level : MSI.ClientState → ℕ
  | .tileInvalid => 0
  | .tileShared => 1
  | .tileExclusiveDirty => 2

def MSI.permissions : Permissions MSICoherence where
  level := MSI.level
  cap := Sharing.cap
  level_le st := by cases st <;> decide
  level_eq_zero st := by cases st <;> decide
  flush := rfl
  hit_le cmd st h := by cases st <;> cases cmd <;> first | decide | exact absurd h (by decide)
  cacheControl_le cmd st h := by
    cases st <;> cases cmd <;> first | decide | exact absurd h (by decide)
  probe_le p st h := by cases st <;> cases p <;> first | decide | exact absurd h (by decide)
  probe_le_cap p st h := by cases st <;> cases p <;> decide
  cap_invalidate := rfl

def MESI.level : MESI.ClientState → ℕ
  | .tileInvalid => 0
  | .tileShared => 1
  | .tileExclusiveClean => 2
  | .tileExclusiveDirty => 2

def MESI.permissions : Permissions MESICoherence where
  level := MESI.level
  cap := Sharing.cap
  level_le st := by cases st <;> decide
  level_eq_zero st := by cases st <;> decide
  flush := rfl
  hit_le cmd st h := by cases st <;> cases cmd <;> first | decide | exact absurd h (by decide)
  cacheControl_le cmd st h := by
    cases st <;> cases cmd <;> first | decide | exact absurd h (by decide)
  probe_le p st h := by cases st <;> cases p <;> first | decide | exact absurd h (by decide)
  probe_le_cap p st h := by cases st <;> cases p <;> decide
  cap_invalidate := rfl

variable {P : CoherencePolicy} {n m : ℕ}

/-! ### Lines only ever go down by themselves -/

namespace Permissions

variable (π : Permissions P)

theorem probeReply_le (st : P.ClientState) (p : Probe P) :
    π.level (Sys.probeReply st p).2 ≤ π.level st ∧
      π.level (Sys.probeReply st p).2 ≤ π.cap p.pType := by
  rw [Sys.probeReply]
  split
  · exact ⟨π.probe_le _ _ ‹_›, π.probe_le_cap _ _ ‹_›⟩
  · have h0 : π.level st = 0 := (π.level_eq_zero st).mpr (Bool.eq_false_iff.mpr ‹_›)
    exact ⟨le_rfl, h0 ▸ Nat.zero_le _⟩

/-- Setting a line to a lower rank lowers the ranks of all lines. -/
theorem setLine_le {s : Sys P n m} {c : Fin n} {addr : ℕ} {st : P.ClientState}
    (h : π.level st ≤ π.level (s.line c addr)) (c' : Fin n) (addr' : ℕ) :
    π.level ((s.setLine c addr st).line c' addr') ≤ π.level (s.line c' addr') := by
  by_cases heq : c' = c ∧ addr' = addr
  · obtain ⟨rfl, rfl⟩ := heq
    exact (congrArg π.level (Sys.update₂_self ..)).trans_le h
  · exact (congrArg π.level (Sys.update₂_of_ne heq)).le

end Permissions

/-! ### The clients a transaction is done with -/

/-- The transaction binds the line: it runs, and has not raised the rank of a line. -/
def TrackerLink.Holds (l : TrackerLink P n) : Prop :=
  l.tracker.state ≠ .sIdle ∧ (l.acks = 0 ∨ P.messageIsUncached l.tracker.xact.aType = true)

/-- The client has answered, or was not asked. -/
def TrackerLink.Done (l : TrackerLink P n) (c : Fin n) : Prop :=
  l.tracker.probeFlags c = false ∧ l.probes c = []

theorem TrackerLink.Done.of_sendProbe {l : TrackerLink P n} {c c' : Fin n}
    (h : (l.sendProbe c).Done c') : l.Done c' := by
  have hflag : Function.update l.tracker.probeFlags c false c' = false := h.1
  have hnil : Function.update l.probes c (l.probes c ++ [l.tracker.probe]) c' = [] := h.2
  by_cases hcc : c' = c
  · subst hcc
    rw [Function.update_self] at hnil
    exact absurd hnil (by simp)
  · rw [Function.update_of_ne hcc] at hflag hnil
    exact ⟨hflag, hnil⟩

/-- Every client holds at most `bound` of a transaction's line, or has yet to answer a probe that
takes it that far down. -/
def Probed (π : Permissions P) (bound : P.AcquireType → ℕ) (s : Sys P n m) : Prop :=
  ∀ t, (s.link t).Holds → ∀ c,
    π.level (s.line c (s.link t).tracker.xact.addr) ≤ bound (s.link t).tracker.xact.aType ∨
    ¬(s.link t).Done c ∧
      π.cap (P.getProbeType (s.link t).tracker.xact.aType) ≤ bound (s.link t).tracker.xact.aType

/-- When an acquire is accepted, every client holds at most `bound` already, or is going to be
probed that far down. -/
def AcceptOk (π : Permissions P) (bound : P.AcquireType → ℕ) (s : Sys P n m) :
    Act P n m → Prop
  | .accept _ c i incoherent => ∀ a, s.acquires c i = some a → ∀ c',
      π.level (s.line c' a.addr) ≤ bound a.aType ∨
      AcquireTracker.probeInitialFlags incoherent c' = true ∧
        π.cap (P.getProbeType a.aType) ≤ bound a.aType
  | _ => True

namespace Probed

variable {π : Permissions P} {bound : P.AcquireType → ℕ} {s s' : Sys P n m}

/-- Lowering lines is harmless. -/
theorem lower (h : Probed π bound s) (hl : s'.link = s.link)
    (hle : ∀ c addr, π.level (s'.line c addr) ≤ π.level (s.line c addr)) : Probed π bound s' := by
  intro t ht c
  rw [hl] at ht ⊢
  exact (h t ht c).imp_left (hle c _).trans

variable {t : Fin m} {c : Fin n} {a : Acquire P}

/-- So is a tracker that moves on with its transaction and is done with nobody new. -/
theorem setLink (h : Probed π bound s) {l' : TrackerLink P n}
    (hx : l'.tracker.xact = (s.link t).tracker.xact) (hh : l'.Holds → (s.link t).Holds)
    (hd : l'.Holds → ∀ c, l'.Done c → (s.link t).Done c) : Probed π bound (s.setLink t l') := by
  intro t' ht c
  by_cases htt : t' = t
  · subst htt
    rw [Sys.setLink_link_self] at ht ⊢
    rw [hx]
    exact (h t' (hh ht) c).imp_right fun hp => ⟨fun hdone => hp.1 (hd ht c hdone), hp.2⟩
  · rw [Sys.setLink_link_of_ne _ htt] at ht ⊢
    exact h t' ht c

/-- A client answers: its line goes down to what the probe allows. -/
theorem probed (hok : SysOk s) (h : Probed π bound s) {p : Probe P} {rest : List (Probe P)}
    (hp : (s.link t).probes c = p :: rest) :
    Probed π bound ((s.setLine c p.addr (Sys.probeReply (s.line c p.addr) p).2).setLink t
      ((s.link t).probed c rest (Sys.probeReply (s.line c p.addr) p).1)) := by
  obtain ⟨hle, hcap⟩ := π.probeReply_le (s.line c p.addr) p
  have hlow := h.lower (show (s.setLine c p.addr _).link = s.link from rfl) (π.setLine_le hle)
  have hown : p = (s.link t).tracker.probe := (hok.link t).probe c p (hp ▸ List.mem_cons_self)
  have haddr : p.addr = (s.link t).tracker.xact.addr := by rw [hown]; rfl
  have hpt : p.pType = P.getProbeType (s.link t).tracker.xact.aType := by rw [hown]; rfl
  intro t' ht c'
  by_cases htt : t' = t
  · subst htt
    rw [Sys.setLink_link_self] at ht ⊢
    have hold := hlow t' ⟨ht.1, ht.2⟩ c'
    by_cases hcc : c' = c
    · subst hcc
      refine hold.elim .inl fun hcapb => .inl ?_
      show π.level ((s.setLine c' p.addr _).line c' (s.link t').tracker.xact.addr) ≤ _
      rw [← haddr, Sys.setLine_line_self]
      exact hcap.trans (hpt ▸ hcapb.2)
    · refine hold.imp_right fun hp' => ⟨fun hdone => hp'.1 ⟨hdone.1, ?_⟩, hp'.2⟩
      have hnil : Function.update (s.link t').probes c rest c' = [] := hdone.2
      rwa [Function.update_of_ne hcc] at hnil
  · rw [Sys.setLink_link_of_ne _ htt] at ht ⊢
    exact hlow t' ht c'

/-- A grant may raise the requester's line, but then the transaction no longer holds it, and no
other transaction does. -/
theorem granted (hP : P.Acks) (hok : SysOk s) (h : Probed π bound s) {g : Grant P}
    {rest : List (Fin n × Grant P)} (hg : (s.link t).grants = (c, g) :: rest)
    (ha : s.outstanding c g.clientXactId = some a) :
    Probed π bound (((s.fill c a g.gType).setOutstanding c g.clientXactId none).setLink t
      ((s.link t).granted g rest)) := by
  obtain ⟨hun, hc, hgr, hout⟩ := hok.of_grants hg
  obtain rfl : a = (s.link t).tracker.xact := by
    rw [hout] at ha
    injection ha with ha
    exact ha.symm
  obtain ⟨hs, -, -, -, hack⟩ := (hok.link t).of_grants hg
  have hone := ((hok.link t).granted hP hg).2
  by_cases hunc : P.messageIsUncached (s.link t).tracker.xact.aType = true
  · have hfill : s.fill c (s.link t).tracker.xact g.gType = s := if_pos hunc
    rw [hfill]
    have hset : Probed π bound (s.setLink t ((s.link t).granted g rest)) :=
      h.setLink rfl (fun hh => ⟨hh.1, .inr hunc⟩) fun _ c' hd => hd
    exact hset.lower rfl fun _ _ => le_rfl
  · have hfill : (s.fill c (s.link t).tracker.xact g.gType).line
        = (s.setLine c (s.link t).tracker.xact.addr
            (P.newStateOnGrant g.gType (s.link t).tracker.xact.aType)).line := by
      rw [Sys.fill, if_neg hunc]
    have hlinks : ((s.fill c (s.link t).tracker.xact g.gType).setOutstanding c g.clientXactId
        none).link = s.link := by
      rw [Sys.fill, if_neg hunc]
      rfl
    intro t' ht c'
    by_cases htt : t' = t
    · subst htt
      rw [Sys.setLink_link_self] at ht
      rcases ht.2 with h0 | h0
      · exact absurd (hone.symm.trans h0) one_ne_zero
      · exact absurd h0 hunc
    · rw [Sys.setLink_link_of_ne _ htt, hlinks] at ht ⊢
      have hne : (s.link t').tracker.xact.addr ≠ (s.link t).tracker.xact.addr :=
        hok.conflict t' t htt ht.1 hun.1
      have hline : (s.fill c (s.link t).tracker.xact g.gType).line c' (s.link t').tracker.xact.addr
          = s.line c' (s.link t').tracker.xact.addr := by
        rw [hfill]
        exact Sys.update₂_of_ne fun heq => hne heq.2
      exact (h t' ht c').imp_left (congrArg π.level hline).trans_le

theorem accept (h : Probed π bound s) {i : ℕ} {inc : Fin n → Bool} (ha : s.acquires c i = some a)
    (hacc : AcceptOk π bound s (.accept t c i inc)) :
    Probed π bound ((s.setAcquires c i none).setLink t ((s.link t).accept c a inc)) := by
  intro t' ht c'
  by_cases htt : t' = t
  · subst htt
    rw [Sys.setLink_link_self] at ht ⊢
    refine (hacc a ha c').imp_right fun hp => ⟨fun hdone => ?_, hp.2⟩
    exact absurd (hp.1.symm.trans hdone.1) (by decide)
  · rw [Sys.setLink_link_of_ne _ htt] at ht ⊢
    exact h t' ht c'

/-- **The step lemma of the permissions.** -/
theorem step (hP : P.Acks) (hok : SysOk s) (h : Probed π bound s) {act : Act P n m}
    (hacc : AcceptOk π bound s act) (hs : Handshake s act s') : Probed π bound s' := by
  cases hs with
  | hit hhit => exact h.lower rfl (π.setLine_le (π.hit_le _ _ hhit))
  | cacheControl v hv => exact h.lower rfl (π.setLine_le (π.cacheControl_le _ _ hv))
  | send _ _ _ => exact h.lower rfl fun _ _ => le_rfl
  | probed hp => exact h.probed hok hp
  | granted hg ha => exact h.granted hP hok hg ha
  | accept ha _ _ _ => exact h.accept ha hacc
  | sendProbe _ _ => exact h.setLink rfl id fun _ _ hd => hd.of_sendProbe
  | @recvRelease t c r rest hr hst =>
    exact h.setLink rfl (fun hh => ⟨by rw [hst]; decide, hh.2⟩) fun _ c' hd => hd
  | @memWrite t hst =>
    exact h.setLink rfl (fun hh => ⟨by rw [hst]; decide, hh.2⟩) fun _ c' hd => hd
  | @memRead t hst =>
    exact h.setLink rfl (fun hh => ⟨by rw [hst]; decide, hh.2⟩) fun _ c' hd => hd
  | @makeGrant t hst =>
    exact h.setLink rfl (fun hh => ⟨by rw [hst]; decide, hh.2⟩) fun _ c' hd => hd
  | outerGrant _ _ => exact h.setLink rfl id fun _ c' hd => hd
  | recvAck _ _ => exact h.setLink rfl (fun hh => absurd rfl hh.1) fun hh => absurd rfl hh.1
  | vol _ _ _ => exact h.lower rfl fun _ _ => le_rfl

theorem of_isReset (h : s.IsReset) : Probed π bound s :=
  fun t ht => absurd (h.idle t) ht.1

/-- Once probing is over everybody is down to `bound`. -/
theorem level_le (h : Probed π bound s) (hok : SysOk s) (ht : (s.link t).Holds)
    (hst : (s.link t).tracker.state ≠ .sProbe) (c : Fin n) :
    π.level (s.line c (s.link t).tracker.xact.addr) ≤ bound (s.link t).tracker.xact.aType := by
  obtain ⟨h1, h2, -⟩ := (hok.link t).quiet_channels hst c
  exact (h t ht c).elim id fun hp => absurd ⟨h1, h2⟩ hp.1

end Probed

end RiscvSoc
