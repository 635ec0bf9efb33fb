import RiscvSoc.Uncore.UncachedWrite

/-!
# Write-backs and later reads

A voluntary write-back and an acquire of the same line are worked on by different trackers, and no
tracker looks at the other's line. What keeps the memory from being read before the write-back has
reached it is the probe: a client answers it only when its own write-back of the line is granted,
and having answered it has nothing left to write back.

The second half holds of a probe that takes the line down to a shared copy or to nothing. A
`probeCopy`, sent for an uncached read, leaves a dirty line where it is, so its owner may write it
back while the tracker reads the memory. And the first half holds of the clients that are probed:
a single client never is.

## History

The write-backs of a line are counted: how many the agent has accepted, and how many it has sent to
the memory. A read sees what has been sent before it.
-/

namespace RiscvSoc

open TrackerLink Function

/-- Of a line, how many write-backs were accepted and how many of them were sent to the memory. -/
structure WriteBackLog (n m : ℕ) where
  /-- The clients and lines of the grants that are on their way from the voluntary tracker. -/
  granted : List (Fin n × ℕ)
  accepted : ℕ → ℕ
  issued : ℕ → ℕ
  /-- How many of its line's write-backs the read of a tracker has seen. -/
  fetched : Fin m → Option ℕ

namespace WriteBack

variable {p : TilePolicy} {n m : ℕ}

def start (n m : ℕ) : WriteBackLog n m := ⟨[], fun _ => 0, fun _ => 0, fun _ => none⟩

/-- One more for a line. -/
def bump (f : ℕ → ℕ) (addr : ℕ) : ℕ → ℕ := update f addr (f addr + 1)

/-- A release with data is accepted. -/
def acceptData (h : WriteBackLog n m) (addr : ℕ) : WriteBackLog n m :=
  { h with accepted := bump h.accepted addr }

/-- The data of a release is sent to the memory. -/
def issueData (h : WriteBackLog n m) (addr : ℕ) : WriteBackLog n m :=
  { h with issued := bump h.issued addr }

/-- The history sees one handshake. The data a probe brings back is accepted and sent in one. -/
def logNext (s : Sys p.policy n m) (h : WriteBackLog n m) : Act p.policy n m → WriteBackLog n m
  | .recvRelease t c =>
    match (s.link t).releases c with
    | r :: _ =>
      if p.policy.releaseHasData r.rType then
        issueData (acceptData h (s.link t).tracker.xact.addr) (s.link t).tracker.xact.addr
      else h
    | [] => h
  | .volRelease c =>
    match s.vol.releases c with
    | r :: _ => if p.policy.releaseHasData r.rType then acceptData h r.addr else h
    | [] => h
  | .volMem => issueData h s.vol.xact.addr
  | .volAck => { h with granted := h.granted ++ [(s.vol.initClientId, s.vol.xact.addr)] }
  | .volGranted => { h with granted := h.granted.tail }
  | .accept t _ _ _ => { h with fetched := update h.fetched t none }
  | .memRead t =>
    { h with fetched :=
        update h.fetched t (some (h.issued (s.link t).tracker.xact.addr)) }
  | _ => h

/-- A voluntary write-back of the line by client `c` is with the agent or on its way there. -/
def pending (s : Sys p.policy n m) (c : Fin n) (addr : ℕ) : Bool :=
  (s.vol.releases c).any (fun r => decide (r.addr = addr)) ||
    decide (s.vol.state ≠ .sIdle ∧ s.vol.initClientId = c ∧ s.vol.xact.addr = addr)

/-- The client has not been granted it. -/
def outstanding (s : Sys p.policy n m) (h : WriteBackLog n m) (c : Fin n) (addr : ℕ) : Bool :=
  pending s c addr || decide ((c, addr) ∈ h.granted)

/-- A client answers a probe of a line when its own write-back of it is granted. -/
def clientsOk (s : Sys p.policy n m) (h : WriteBackLog n m) : Act p.policy n m → Bool
  | .probed t c =>
    match (s.link t).probes c with
    | q :: _ => !outstanding s h c q.addr
    | [] => true
  | _ => true

/-- One handshake, and the history. -/
def step (act : Act p.policy n m) (x : Sys p.policy n m × WriteBackLog n m) :
    Option (Sys p.policy n m × WriteBackLog n m) :=
  if clientsOk x.1 x.2 act then (Sys.step act x.1).map fun s' => (s', logNext x.1 x.2 act)
  else none

/-- The agent and clients that hold their answers back, with the history. -/
def machine (p : TilePolicy) (n m : ℕ) :
    Machine (Sys p.policy n m × WriteBackLog n m) (Act p.policy n m) :=
  Machine.ofFun (fun x => x.1.IsReset ∧ x.2 = start n m) step

/-- After the probe of the acquire nobody is left to write the line back. -/
def Cleans (p : TilePolicy) (a : p.policy.AcquireType) : Prop :=
  p.permissions.cap (p.policy.getProbeType a) ≤ 1

instance (a : p.policy.AcquireType) : Decidable (Cleans p a) := inferInstanceAs (Decidable (_ ≤ _))

/-- A client that is not probed for an acquire that cleans has no write-back of the line
outstanding and does not hold it alone. -/
def AcceptQuiet (x : Sys p.policy n m × WriteBackLog n m) : Act p.policy n m → Prop
  | .accept _ c i incoherent => ∀ a, x.1.acquires c i = some a → Cleans p a.aType →
      ∀ c', AcquireTracker.probeInitialFlags incoherent c' = false →
        outstanding x.1 x.2 c' a.addr = false ∧ p.permissions.level (x.1.line c' a.addr) ≤ 1
  | _ => True

/-- No outer read of a line is about to be issued between the acceptance of a voluntary write-back
of it and the outer write. -/
def ReadInOrder (s : Sys p.policy n m) (t : Fin m) : Prop :=
  (s.link t).tracker.state = .sMemRead →
    ¬(s.vol.state = .sMem ∧ s.vol.xact.addr = (s.link t).tracker.xact.addr)

/-- What a tracker has read for its requester is what the last write-back of the line left. -/
def GrantsLast (s : Sys p.policy n m) (h : WriteBackLog n m) (t : Fin m) : Prop :=
  (s.link t).Unserved → ∀ k, h.fetched t = some k →
    k = h.accepted (s.link t).tracker.xact.addr

/-! ### The policies -/

theorem cleans_of_cached {a : p.policy.AcquireType} (h : p.policy.messageIsUncached a = false) :
    Cleans p a := by
  cases p <;> cases a <;>
    first
    | exact absurd h (by decide)
    | exact Nat.zero_le 1
    | exact Nat.le_refl 1

theorem level_of_needsTransaction {cmd : MemCmd} {st : p.policy.ClientState}
    (h : p.policy.needsTransactionOnCacheControl cmd st = true) : p.permissions.level st = 2 := by
  cases p <;> cases st <;> first | rfl | exact absurd h Bool.false_ne_true

/-- How much of its line a transaction leaves to each client. -/
def cleanBound (p : TilePolicy) (a : p.policy.AcquireType) : ℕ :=
  if Cleans p a then 1 else max 2 (p.permissions.cap (p.policy.getProbeType a))

variable {s s' : Sys p.policy n m} {h : WriteBackLog n m} {act : Act p.policy n m}

theorem acceptOk_cleanBound (hquiet : AcceptQuiet (s, h) act) :
    AcceptOk p.permissions (cleanBound p) s act := by
  cases act
  case accept t c i inc =>
    intro a ha c'
    by_cases hclean : Cleans p a.aType
    · have hbound : cleanBound p a.aType = 1 := if_pos hclean
      rw [hbound]
      cases hflag : AcquireTracker.probeInitialFlags inc c' with
      | true => exact .inr ⟨rfl, hclean⟩
      | false => exact .inl (hquiet a ha hclean c' hflag).2
    · have hbound : cleanBound p a.aType
          = max 2 (p.permissions.cap (p.policy.getProbeType a.aType)) := if_neg hclean
      rw [hbound]
      exact .inl ((p.permissions.level_le _).trans (le_max_left _ _))
  all_goals trivial

/-! ### What a step does to the voluntary tracker -/

/-- The handshakes the voluntary tracker or its channels take part in. -/
def onVol : Act p.policy n m → Bool
  | .cacheControl .. | .volGranted | .volRelease _ | .volMem | .volAck => true
  | _ => false

theorem vol_of_step (hs : Sys.step act s = some s') (hv : onVol act = false) :
    s'.vol = s.vol := by
  have hfill : ∀ c a g, (s.fill c a g).vol = s.vol := by
    intro c a g
    rw [Sys.fill]
    split <;> rfl
  cases act <;> simp only [Sys.step] at hs
  case cacheControl | volGranted | volRelease | volMem | volAck => cases hv
  case granted t =>
    split at hs
    · cases hs
    · split at hs
      · cases hs
      · cases hs
        exact hfill ..
  case probed t c =>
    split at hs
    · cases hs
    · cases hs
      rfl
  case accept | recvRelease =>
    split at hs
    · cases hs
    · split at hs
      · cases hs
        rfl
      · cases hs
  all_goals
    split at hs
    · cases hs
      rfl
    · cases hs

variable {c : Fin n} {t : Fin m}

theorem pending_iff {addr : ℕ} : pending s c addr = true ↔
    (∃ r ∈ s.vol.releases c, r.addr = addr) ∨
      s.vol.state ≠ .sIdle ∧ s.vol.initClientId = c ∧ s.vol.xact.addr = addr := by
  rw [pending, Bool.or_eq_true, List.any_eq_true, decide_eq_true_eq]
  simp only [decide_eq_true_eq]

/-- A write-back on its way was so before the step, or its client has just given the line up. -/
theorem pending_of_step (hs : Sys.step act s = some s') {addr : ℕ}
    (hp : pending s' c addr = true) : pending s c addr = true ∨
      (∃ cmd, act = .cacheControl c addr cmd) ∧ p.permissions.level (s.line c addr) = 2 := by
  by_cases hv : onVol act = true
  · rw [pending_iff] at hp ⊢
    cases act <;> simp only [Sys.step] at hs
    case cacheControl c' addr' cmd =>
      split at hs
      · split at hs
        · rename_i hneeds
          cases hs
          rcases hp with ⟨r, hr, hra⟩ | hbusy
          · by_cases hcc : c = c'
            · subst hcc
              have hmem : r ∈ s.vol.releases c ++
                  [⟨p.policy.getReleaseTypeOnCacheControl cmd, addr'⟩] := by
                simpa only [update_self] using hr
              rcases List.mem_append.mp hmem with hold | hnew
              · exact .inl (.inl ⟨r, hold, hra⟩)
              · rw [List.mem_singleton.mp hnew] at hra
                subst hra
                exact .inr ⟨⟨cmd, rfl⟩, level_of_needsTransaction hneeds⟩
            · have hold : r ∈ s.vol.releases c := by
                simpa only [update_of_ne hcc] using hr
              exact .inl (.inl ⟨r, hold, hra⟩)
          · exact .inl (.inr hbusy)
        · cases hs
          exact .inl hp
      · cases hs
    case volGranted =>
      split at hs
      · cases hs
      · cases hs
        exact .inl hp
    case volRelease c' =>
      split at hs
      · cases hs
      · rename_i r rest hrel
        split at hs
        · cases hs
          refine .inl (.inl ?_)
          rcases hp with ⟨r', hr', hra⟩ | ⟨-, hc, hra⟩
          · by_cases hcc : c = c'
            · subst hcc
              have hmem : r' ∈ rest := by simpa only [update_self] using hr'
              exact ⟨r', hrel ▸ List.mem_cons_of_mem r hmem, hra⟩
            · have hold : r' ∈ s.vol.releases c := by
                simpa only [update_of_ne hcc] using hr'
              exact ⟨r', hold, hra⟩
          · obtain rfl : c' = c := hc
            exact ⟨r, hrel ▸ List.mem_cons_self, hra⟩
        · cases hs
    case volMem =>
      split at hs
      · rename_i hst
        cases hs
        exact .inl (hp.imp_right fun hbusy => ⟨by rw [hst]; decide, hbusy.2⟩)
      · cases hs
    case volAck =>
      split at hs
      · cases hs
        exact .inl (hp.imp_right fun hbusy => absurd rfl hbusy.1)
      · cases hs
    all_goals cases hv
  · rw [pending, vol_of_step hs (Bool.eq_false_iff.mpr hv)] at hp
    exact .inl hp

/-! ### What a step does to the clients that are done -/

/-- A client the transaction of tracker `t` is done with was so before the step, or has just
answered, or is not asked at all. -/
def DoneBefore (s s' : Sys p.policy n m) (act : Act p.policy n m) (t : Fin m) (c : Fin n) : Prop :=
  ((s.link t).Holds ∧ (s'.link t).tracker.xact = (s.link t).tracker.xact ∧
    ((s.link t).Done c ∨ ∃ q rest, act = .probed t c ∧ (s.link t).probes c = q :: rest)) ∨
  ∃ c₀ i inc, act = .accept t c₀ i inc ∧ s.acquires c₀ i = some (s'.link t).tracker.xact ∧
    AcquireTracker.probeInitialFlags inc c = false

/-- A tracker moves on with its transaction and is done with nobody new. -/
theorem DoneBefore.setLink (t : Fin m) (l' : TrackerLink p.policy n) {t' : Fin m}
    (hx : l'.tracker.xact = (s.link t).tracker.xact) (hh : l'.Holds → (s.link t).Holds)
    (hd : l'.Holds → l'.Done c → (s.link t).Done c) (hlink : s'.link = (s.setLink t l').link)
    (hheld : (s'.link t').Holds) (hdone : (s'.link t').Done c) : DoneBefore s s' act t' c := by
  rw [DoneBefore, hlink]
  rw [hlink] at hheld hdone
  by_cases htt : t' = t
  · subst htt
    rw [Sys.setLink_link_self] at hheld hdone ⊢
    exact .inl ⟨hh hheld, hx, .inl (hd hheld hdone)⟩
  · rw [Sys.setLink_link_of_ne _ htt] at hheld hdone ⊢
    exact .inl ⟨hheld, rfl, .inl hdone⟩

theorem doneBefore_of_step (hs : Handshake s act s') (hheld : (s'.link t).Holds)
    (hdone : (s'.link t).Done c) : DoneBefore s s' act t c := by
  cases hs with
  | hit _ => exact .inl ⟨hheld, rfl, .inl hdone⟩
  | cacheControl _ _ => exact .inl ⟨hheld, rfl, .inl hdone⟩
  | send _ _ _ => exact .inl ⟨hheld, rfl, .inl hdone⟩
  | vol _ _ _ => exact .inl ⟨hheld, rfl, .inl hdone⟩
  | @probed t₀ c₀ q rest hq =>
    by_cases htt : t = t₀
    · subst htt
      rw [DoneBefore]
      rw [Sys.setLink_link_self] at hheld hdone ⊢
      refine .inl ⟨hheld, rfl, ?_⟩
      by_cases hcc : c = c₀
      · subst hcc
        exact .inr ⟨q, rest, rfl, hq⟩
      · have hnil : update (s.link t).probes c₀ rest c = [] := hdone.2
        rw [update_of_ne hcc] at hnil
        exact .inl ⟨hdone.1, hnil⟩
    · rw [DoneBefore]
      rw [Sys.setLink_link_of_ne _ htt] at hheld hdone ⊢
      exact .inl ⟨hheld, rfl, .inl hdone⟩
  | @granted t₀ c₀ g rest a hg ha =>
    have hfill : (s.fill c₀ a g.gType).link = s.link := by
      rw [Sys.fill]
      split <;> rfl
    refine .setLink t₀ ((s.link t₀).granted g rest) rfl (fun hh => ⟨hh.1, ?_⟩)
      (fun _ hd => hd) ?_ hheld hdone
    · exact hh.2.imp_left fun h0 => (Nat.add_eq_zero_iff.mp h0).1
    · simp only [Sys.setLink, Sys.setOutstanding, hfill]
  | @accept t₀ c₀ i a inc ha _ _ _ =>
    by_cases htt : t = t₀
    · subst htt
      rw [DoneBefore]
      rw [Sys.setLink_link_self] at hdone ⊢
      exact .inr ⟨c₀, i, inc, rfl, ha, hdone.1⟩
    · rw [DoneBefore]
      rw [Sys.setLink_link_of_ne _ htt] at hheld hdone ⊢
      exact .inl ⟨hheld, rfl, .inl hdone⟩
  | @sendProbe t₀ c₀ _ _ =>
    exact .setLink t₀ ((s.link t₀).sendProbe c₀) rfl id (fun _ hd => hd.of_sendProbe) rfl hheld
      hdone
  | @recvRelease t₀ c₀ r rest _ hst =>
    exact .setLink t₀ ((s.link t₀).recvRelease c₀ rest) rfl
      (fun hh => ⟨by rw [hst]; decide, hh.2⟩) (fun _ hd => hd) rfl hheld hdone
  | @memWrite t₀ hst =>
    exact .setLink t₀ (s.link t₀).memWrite rfl (fun hh => ⟨by rw [hst]; decide, hh.2⟩)
      (fun _ hd => hd) rfl hheld hdone
  | @memRead t₀ hst =>
    exact .setLink t₀ (s.link t₀).memRead rfl (fun hh => ⟨by rw [hst]; decide, hh.2⟩)
      (fun _ hd => hd) rfl hheld hdone
  | @makeGrant t₀ hst =>
    exact .setLink t₀ ((s.link t₀).makeGrant) rfl (fun hh => ⟨by rw [hst]; decide, hh.2⟩)
      (fun _ hd => hd) rfl hheld hdone
  | @outerGrant t₀ _ _ =>
    exact .setLink t₀ ((s.link t₀).outerGrant) rfl id (fun _ hd => hd) rfl hheld hdone
  | @recvAck t₀ _ _ =>
    exact .setLink t₀ ((s.link t₀).recvAck) rfl (fun hh => absurd rfl hh.1)
      (fun hh => absurd rfl hh.1) rfl hheld hdone

/-! ### The invariants -/

/-- A client that has answered for an acquire that cleans has no write-back of the line on its
way. -/
def Quiet (s : Sys p.policy n m) : Prop :=
  ∀ t, (s.link t).Holds → Cleans p (s.link t).tracker.xact.aType → ∀ c, (s.link t).Done c →
    pending s c (s.link t).tracker.xact.addr = false

/-- **The step lemma.** A client that is done holds at most a shared copy, which it gives up
without writing back. -/
theorem Quiet.step (hok : SysOk s) (hprobed : Probed p.permissions (cleanBound p) s)
    (hquiet : Quiet s) (hclients : clientsOk s h act = true) (haccept : AcceptQuiet (s, h) act)
    (hs : Sys.step act s = some s') : Quiet s' := by
  intro t hheld hclean c hdone
  by_contra hpend
  have hbefore := doneBefore_of_step (handshake_of_step hs) hheld hdone
  have hout : ∀ addr, outstanding s h c addr = false → ¬pending s c addr = true := by
    intro addr hnone hp
    rw [outstanding, hp, Bool.true_or] at hnone
    cases hnone
  rcases pending_of_step hs (Bool.not_eq_false _ ▸ hpend) with hp | ⟨⟨cmd, rfl⟩, hlevel⟩
  · rcases hbefore with ⟨hheld₀, hx, hdone₀ | ⟨q, rest, rfl, hq⟩⟩ | ⟨c₀, i, inc, rfl, ha, hflag⟩
    · rw [hx] at hp hclean
      rw [hquiet t hheld₀ hclean c hdone₀] at hp
      cases hp
    · have hown : q = (s.link t).tracker.probe :=
        (hok.link t).probe c q (hq ▸ List.mem_cons_self)
      rw [clientsOk, hq] at hclients
      refine hout _ (Bool.not_eq_true' _ ▸ hclients) ?_
      rw [hown, ← hp, hx]
      rfl
    · exact hout _ (haccept _ ha hclean c hflag).1 hp
  · rcases hbefore with ⟨hheld₀, hx, hdone₀ | ⟨q, rest, hact, -⟩⟩ | ⟨c₀, i, inc, hact, -⟩
    · rw [hx] at hlevel hclean
      have hbound : cleanBound p (s.link t).tracker.xact.aType = 1 := if_pos hclean
      rcases hprobed t hheld₀ c with hle | ⟨hnot, -⟩
      · rw [hlevel, hbound] at hle
        omega
      · exact hnot hdone₀
    · cases hact
    · cases hact

/-- What is accepted and not yet sent is what the voluntary tracker holds. -/
def Count (s : Sys p.policy n m) (h : WriteBackLog n m) : Prop :=
  ∀ addr, h.accepted addr =
    h.issued addr + if s.vol.state = .sMem ∧ s.vol.xact.addr = addr then 1 else 0

theorem bump_apply (f : ℕ → ℕ) (addr addr' : ℕ) :
    bump f addr addr' = f addr' + if addr = addr' then 1 else 0 := by
  rw [bump, update_apply]
  by_cases heq : addr' = addr
  · rw [if_pos heq, if_pos heq.symm, heq]
  · rw [if_neg heq, if_neg fun h => heq h.symm]
    rfl

/-- Steps that count nothing and leave the outer write of the voluntary tracker alone. -/
theorem Count.congr {h' : WriteBackLog n m} (hcount : Count s h)
    (hacc : h'.accepted = h.accepted) (hiss : h'.issued = h.issued)
    (hst : s'.vol.state = .sMem ↔ s.vol.state = .sMem) (hx : s'.vol.xact = s.vol.xact) :
    Count s' h' := by
  intro addr
  rw [hacc, hiss, hx]
  simp only [hst]
  exact hcount addr

theorem Count.step (hcount : Count s h) (hs : Sys.step act s = some s') :
    Count s' (logNext s h act) := by
  have hsame : onVol act = false → s'.vol = s.vol := vol_of_step hs
  cases act
  case recvRelease t c =>
    have hvol := hsame rfl
    intro addr
    rw [hvol]
    simp only [logNext]
    split
    · split
      · simp only [issueData, acceptData, bump_apply]
        have := hcount addr
        omega
      · exact hcount addr
    · exact hcount addr
  case cacheControl c addr cmd =>
    simp only [Sys.step] at hs
    split at hs
    · split at hs
      · cases hs
        exact hcount
      · cases hs
        exact hcount
    · cases hs
  case volGranted =>
    simp only [Sys.step] at hs
    split at hs
    · cases hs
    · cases hs
      exact hcount
  case volRelease c =>
    simp only [Sys.step] at hs
    split at hs
    · cases hs
    · rename_i r rest hrel
      split at hs
      · rename_i hidle
        cases hs
        intro addr
        have hold := hcount addr
        rw [if_neg fun hmem => VoluntaryReleaseState.noConfusion (hidle.symm.trans hmem.1)] at hold
        simp only [logNext, hrel]
        by_cases hdata : p.policy.releaseHasData r.rType = true
        · simp only [hdata, if_true, acceptData, bump_apply, true_and]
          omega
        · simp only [hdata, if_false, Bool.false_eq_true, reduceCtorEq, false_and]
          exact hold
      · cases hs
  case volMem =>
    simp only [Sys.step] at hs
    split at hs
    · rename_i hmem
      cases hs
      intro addr
      have hold := hcount addr
      simp only [hmem, true_and] at hold
      simp only [logNext, issueData, bump_apply, reduceCtorEq, false_and, if_false]
      omega
    · cases hs
  case volAck =>
    simp only [Sys.step] at hs
    split at hs
    · rename_i hack
      cases hs
      exact hcount.congr rfl rfl (by simp [hack]) rfl
    · cases hs
  all_goals exact hcount.congr rfl rfl (by rw [hsame rfl]) (by rw [hsame rfl])

/-- No write-back of a line starts while a transaction that cleaned it is past its probes. -/
theorem accepted_of_step (hok : SysOk s) (hquiet : Quiet s) (hs : Sys.step act s = some s')
    (hheld : (s.link t).Holds) (hclean : Cleans p (s.link t).tracker.xact.aType)
    (hst : (s.link t).tracker.state ≠ .sProbe) :
    (logNext s h act).accepted (s.link t).tracker.xact.addr
      = h.accepted (s.link t).tracker.xact.addr := by
  have hnone : ∀ c, ¬pending s c (s.link t).tracker.xact.addr = true := by
    intro c
    have hdone := (hok.link t).quiet_channels hst c
    rw [hquiet t hheld hclean c ⟨hdone.1, hdone.2.1⟩]
    exact Bool.false_ne_true
  cases act
  case recvRelease t' c =>
    simp only [Sys.step] at hs
    split at hs
    · cases hs
    · rename_i r rest hrel
      split at hs
      · rename_i hprobe
        have htt : t' ≠ t := by
          rintro rfl
          exact hst hprobe
        have hne := hok.conflict t' t htt (by rw [hprobe]; decide) hheld.1
        simp only [logNext, hrel]
        split
        · simp only [issueData, acceptData, bump_apply, if_neg hne]
          rfl
        · rfl
      · cases hs
  case volRelease c =>
    simp only [Sys.step] at hs
    split at hs
    · cases hs
    · rename_i r rest hrel
      have hne : r.addr ≠ (s.link t).tracker.xact.addr := fun heq =>
        hnone c (pending_iff.mpr (.inl ⟨r, hrel ▸ List.mem_cons_self, heq⟩))
      simp only [logNext, hrel]
      split
      · simp only [acceptData, bump_apply, if_neg hne]
        rfl
      · rfl
  all_goals rfl

/-- A tracker that waits for its read goes on waiting, with the same transaction, until it is
acknowledged. -/
def Waits (l l' : TrackerLink p.policy n) : Prop :=
  l'.tracker.state ≠ .sIdle → l.tracker.state ≠ .sIdle ∧ (l.tracker.state = .sBusy →
    l'.tracker.state = .sBusy ∧ l'.tracker.xact = l.tracker.xact ∧ (l'.acks = 0 → l.acks = 0))

theorem Waits.refl (l : TrackerLink p.policy n) : Waits l l :=
  fun hne => ⟨hne, fun hb => ⟨hb, rfl, id⟩⟩

theorem Waits.of_state {l l' : TrackerLink p.policy n} {st : AcquireTrackerState}
    (hst : l.tracker.state = st) (hidle : st ≠ .sIdle) (hbusy : st ≠ .sBusy) : Waits l l' :=
  fun _ => ⟨hst ▸ hidle, fun hb => absurd (hst.symm.trans hb) hbusy⟩

theorem Waits.setLink {t₀ t : Fin m} {l' : TrackerLink p.policy n} (h : Waits (s.link t₀) l') :
    Waits (s.link t) ((s.setLink t₀ l').link t) := by
  by_cases htt : t = t₀
  · subst htt
    rw [Sys.setLink_link_self]
    exact h
  · rw [Sys.setLink_link_of_ne _ htt]
    exact .refl _

theorem waits_of_step (hs : Handshake s act s')
    (hacc : ∀ c i inc, act ≠ .accept t c i inc) : Waits (s.link t) (s'.link t) := by
  cases hs with
  | hit _ => exact .refl _
  | cacheControl _ _ => exact .refl _
  | send _ _ _ => exact .refl _
  | vol _ _ _ => exact .refl _
  | probed hq => exact Waits.setLink fun hne => ⟨hne, fun hb => ⟨hb, rfl, id⟩⟩
  | @granted t₀ c₀ g rest a hg ha =>
    have hfill : ((s.fill c₀ a g.gType).setOutstanding c₀ g.clientXactId none).link = s.link := by
      rw [Sys.fill]
      split <;> rfl
    rw [← hfill]
    refine Waits.setLink fun hne => ?_
    rw [hfill] at hne ⊢
    exact ⟨hne, fun hb => ⟨hb, rfl, fun h0 => (Nat.add_eq_zero_iff.mp h0).1⟩⟩
  | @accept t₀ c₀ i a inc _ _ _ _ =>
    have htt : t ≠ t₀ := by
      rintro rfl
      exact hacc c₀ i inc rfl
    rw [Sys.setLink_link_of_ne _ htt]
    exact .refl _
  | sendProbe hst _ => exact Waits.setLink (.of_state hst (by decide) (by decide))
  | recvRelease _ hst => exact Waits.setLink (.of_state hst (by decide) (by decide))
  | memWrite hst => exact Waits.setLink (.of_state hst (by decide) (by decide))
  | memRead hst => exact Waits.setLink (.of_state hst (by decide) (by decide))
  | makeGrant hst => exact Waits.setLink (.of_state hst (by decide) (by decide))
  | outerGrant _ _ => exact Waits.setLink fun hne => ⟨hne, fun hb => ⟨hb, rfl, id⟩⟩
  | recvAck _ _ => exact Waits.setLink fun hne => absurd rfl hne

theorem Quiet.readInOrder (hquiet : Quiet s) (hok : SysOk s)
    (hclean : Cleans p (s.link t).tracker.xact.aType) : ReadInOrder s t := by
  intro hst hmem
  have hne : (s.link t).tracker.state ≠ .sProbe := by rw [hst]; decide
  have hdone := (hok.link t).quiet_channels hne s.vol.initClientId
  have hheld : (s.link t).Holds :=
    ⟨by rw [hst]; decide, .inl ((hok.link t).waiting (by rw [hst]; decide)).2.2⟩
  have hnone := hquiet t hheld hclean s.vol.initClientId ⟨hdone.1, hdone.2.1⟩
  have hpend : pending s s.vol.initClientId (s.link t).tracker.xact.addr = true :=
    pending_iff.mpr (.inr ⟨by rw [hmem.1]; decide, rfl, hmem.2⟩)
  exact Bool.false_ne_true (hnone.symm.trans hpend)

/-- A tracker that has read waits for its acknowledgement, and if it has cleaned its line, what it
read is still the last. -/
def Fetched (s : Sys p.policy n m) (h : WriteBackLog n m) : Prop :=
  ∀ t k, (s.link t).tracker.state ≠ .sIdle → h.fetched t = some k →
    (s.link t).tracker.state = .sBusy ∧
      (Cleans p (s.link t).tracker.xact.aType → (s.link t).acks = 0 →
        k = h.accepted (s.link t).tracker.xact.addr)

/-- The history of what tracker `t` has read moves when it accepts and when it reads. -/
theorem fetched_logNext (hacc : ∀ c i inc, act ≠ .accept t c i inc)
    (hread : act ≠ .memRead t) : (logNext s h act).fetched t = h.fetched t := by
  cases act
  case accept t' c i inc =>
    have htt : t ≠ t' := by
      rintro rfl
      exact hacc c i inc rfl
    exact update_of_ne htt ..
  case memRead t' =>
    have htt : t ≠ t' := by
      rintro rfl
      exact hread rfl
    exact update_of_ne htt ..
  case recvRelease =>
    simp only [logNext]
    split
    · split <;> rfl
    · rfl
  case volRelease =>
    simp only [logNext]
    split
    · split <;> rfl
    · rfl
  all_goals rfl

theorem Fetched.step (hok : SysOk s) (hquiet : Quiet s) (hcount : Count s h) (hf : Fetched s h)
    (hs : Sys.step act s = some s') : Fetched s' (logNext s h act) := by
  intro t k hne hk
  by_cases hacc : ∃ c i inc, act = .accept t c i inc
  · obtain ⟨c, i, inc, rfl⟩ := hacc
    have hnone : (logNext s h (.accept t c i inc)).fetched t = none := update_self ..
    cases hnone.symm.trans hk
  · by_cases hread : act = .memRead t
    · subst hread
      simp only [Sys.step] at hs
      split at hs
      · rename_i hst
        cases hs
        rw [Sys.setLink_link_self]
        refine ⟨LinkOk.awaitAck_state p.acks _, fun hclean hack => ?_⟩
        have hsome : (logNext s h (.memRead t)).fetched t
            = some (h.issued (s.link t).tracker.xact.addr) := update_self ..
        have hread := hquiet.readInOrder hok hclean hst
        have hlast := hcount (s.link t).tracker.xact.addr
        rw [if_neg hread] at hlast
        exact (Option.some.inj (hk.symm.trans hsome)).trans hlast.symm
      · cases hs
    · have hacc' : ∀ c i inc, act ≠ .accept t c i inc := fun c i inc heq => hacc ⟨c, i, inc, heq⟩
      rw [fetched_logNext hacc' hread] at hk
      obtain ⟨hne₀, hwait⟩ := waits_of_step (handshake_of_step hs) hacc' hne
      obtain ⟨hbusy, hlast⟩ := hf t k hne₀ hk
      obtain ⟨hbusy', hx, hacks⟩ := hwait hbusy
      refine ⟨hbusy', fun hclean hack => ?_⟩
      rw [hx] at hclean ⊢
      rw [accepted_of_step hok hquiet hs ⟨hne₀, .inl (hacks hack)⟩ hclean (by rw [hbusy]; decide)]
      exact hlast hclean (hacks hack)

/-! ### Every run -/

/-- What every run keeps. -/
structure Ordered (x : Sys p.policy n m × WriteBackLog n m) : Prop where
  probed : Probed p.permissions (cleanBound p) x.1
  quiet : Quiet x.1
  count : Count x.1 x.2
  fetched : Fetched x.1 x.2

/-- A step of the machine is a step of the agent whose clients keep their promise. -/
theorem of_step {x x' : Sys p.policy n m × WriteBackLog n m} (hs : step act x = some x') :
    clientsOk x.1 x.2 act = true ∧ Sys.step act x.1 = some x'.1 ∧ x'.2 = logNext x.1 x.2 act := by
  rw [step] at hs
  split at hs
  · obtain ⟨s', hs', rfl⟩ := Option.map_eq_some_iff.mp hs
    exact ⟨‹_›, hs', rfl⟩
  · cases hs

theorem reachable_sys {x : Sys p.policy n m × WriteBackLog n m}
    (hr : (machine p n m).Reachable x) : (Sys.machine p.policy n m).Reachable x.1 := by
  induction hr with
  | init h => exact .init h.1
  | step _ h ih => exact .step ih (of_step h).2.1

theorem reachable_ordered : ∀ x : Sys p.policy n m × WriteBackLog n m,
    ((machine p n m).restrict AcceptQuiet).Reachable x → Ordered x := by
  refine Machine.invariant ?_ ?_
  · rintro ⟨s, h⟩ ⟨hreset, rfl⟩
    have hidle : ∀ t, ¬(s.link t).tracker.state ≠ .sIdle := fun t hne => hne (hreset.idle t)
    refine ⟨.of_isReset hreset, fun t hheld => absurd hheld.1 (hidle t), fun addr => ?_,
      fun t k hne => absurd hne (hidle t)⟩
    rw [if_neg fun hmem => VoluntaryReleaseState.noConfusion (hreset.volIdle.symm.trans hmem.1)]
    rfl
  · rintro ⟨s, h⟩ act ⟨s', h'⟩ hr ⟨hprobed, hquiet, hcount, hf⟩ ⟨haccept, hstep⟩
    have hok := sysOk_of_reachable p.acks s (reachable_sys hr.of_restrict)
    obtain ⟨hclients, hs, rfl⟩ := of_step hstep
    exact ⟨hprobed.step p.acks hok (acceptOk_cleanBound haccept) (handshake_of_step hs),
      hquiet.step hok hprobed hclients haccept hs, hcount.step hs, hf.step hok hquiet hcount hs⟩

/-- **Write-backs before reads.** When clients answer a probe only after their own write-back of
the line is granted, and those that are not probed have nothing to write back, no read for an
acquire that cleans its line overtakes a write-back of it, and what is granted is what the last
write-back left. Every acquire that fills a cache cleans. -/
theorem writeBacks_before_reads (p : TilePolicy) (n m : ℕ) :
    (∀ x, ((machine p n m).restrict AcceptQuiet).Reachable x → ∀ t,
      Cleans p (x.1.link t).tracker.xact.aType → ReadInOrder x.1 t ∧ GrantsLast x.1 x.2 t) ∧
    ∀ a : p.policy.AcquireType, p.policy.messageIsUncached a = false → Cleans p a := by
  refine ⟨?_, fun a => cleans_of_cached⟩
  rintro ⟨s, h⟩ hr t hclean
  have hok := sysOk_of_reachable p.acks s (reachable_sys hr.of_restrict)
  have hinv := reachable_ordered (s, h) hr
  exact ⟨hinv.quiet.readInOrder hok hclean, fun hun k hk =>
    (hinv.fetched t k hun.1 hk).2 hclean hun.2⟩

/-- Client `0` becomes the owner of line `0`. -/
def owner : List (Act MESICoherence 2 1) :=
  [.miss 0 0 0 .xwr [], .accept 0 0 0 fun _ => false, .sendProbe 0 0, .sendProbe 0 1,
    .probed 0 0, .probed 0 1, .recvRelease 0 0, .recvRelease 0 1, .memRead 0, .outerGrant 0,
    .granted 0, .recvAck 0]

/-- It writes the line back, and client `1` reads it. -/
def readBehind : List (Act MESICoherence 2 1) :=
  owner ++ [.cacheControl 0 0 .inv, .volRelease 0, .miss 1 0 0 .xrd [],
    .accept 0 1 0 fun _ => false, .sendProbe 0 0, .sendProbe 0 1, .probed 0 1, .volMem, .volAck,
    .volGranted, .probed 0 0, .recvRelease 0 0, .recvRelease 0 1, .memRead 0]

/-- Client `1` reads it past its cache, and both have answered the probe when client `0` writes it
back. -/
def uncachedRead : List (Act MESICoherence 2 1) :=
  owner ++ [.uncached 1 ⟨Sharing.AcquireType.acquireReadUncached, 0, 0⟩,
    .accept 0 1 0 fun _ => false, .sendProbe 0 0, .sendProbe 0 1,
    .probed 0 0, .probed 0 1, .recvRelease 0 0, .recvRelease 0 1,
    .cacheControl 0 0 .inv, .volRelease 0]

/-- The only client writes line `0` back and asks for it again at once. -/
def ownRead : List (Act MESICoherence 1 1) :=
  [.miss 0 0 0 .xwr [], .accept 0 0 0 fun _ => false, .memRead 0, .outerGrant 0, .granted 0,
    .recvAck 0, .cacheControl 0 0 .inv, .miss 0 0 0 .xrd [], .accept 0 0 0 fun _ => false,
    .volRelease 0]

def agentReset (n : ℕ) (hn : 0 < n) : Sys MESICoherence n 1 :=
  Sys.reset hn 1 Sharing.AcquireType.acquireReadShared ReleaseType.releaseInvalidateAck

/-- With two clients that are both probed nothing is asked of the others. -/
theorem acceptQuiet_of_coherent {x : Sys MESICoherence 2 1 × WriteBackLog 2 1}
    {act : Act MESICoherence 2 1}
    (h : ∀ t c i inc, act = .accept t c i inc → inc = fun _ => false) :
    AcceptQuiet (p := .mesi) x act := by
  cases act
  case accept t c i inc =>
    obtain rfl := h t c i inc rfl
    intro a _ _ c' hflag
    exact absurd (show true = false from hflag) (by decide)
  all_goals trivial

/-- The read has seen the write-back. -/
theorem writeBacks_before_reads_behind : ∃ x,
    Machine.runs (step (p := .mesi)) readBehind (agentReset 2 two_pos, start 2 1) = some x ∧
      x.2.accepted 0 = 1 ∧ x.2.fetched 0 = some 1 ∧ ReadInOrder x.1 0 ∧ GrantsLast x.1 x.2 0 := by
  have hrun : ∃ x,
      Machine.runs (step (p := .mesi)) readBehind (agentReset 2 two_pos, start 2 1) = some x ∧
        x.2.accepted 0 = 1 ∧ x.2.fetched 0 = some 1 ∧
        (x.1.link 0).tracker.xact.aType = Sharing.AcquireType.acquireReadShared :=
    ⟨_, rfl, rfl, rfl, rfl⟩
  obtain ⟨x, hx, haccepted, hfetched, htype⟩ := hrun
  have hquiet : ∀ act ∈ readBehind, ∀ x, AcceptQuiet (p := .mesi) x act := fun act hact x => by
    refine acceptQuiet_of_coherent ?_
    rintro t c i inc rfl
    rcases (by simpa [readBehind, owner] using hact : _ ∨ _) with h | h <;> exact h.2.2.2
  have hclean : Cleans .mesi (x.1.link 0).tracker.xact.aType := by
    rw [htype]
    exact le_of_eq rfl
  exact ⟨x, hx, haccepted, hfetched, (writeBacks_before_reads .mesi 2 1).1 x
    (Machine.reachable_restrict_of_runs hquiet (.init ⟨Sys.isReset_reset .., rfl⟩) hx) 0 hclean⟩

/-- A read that finds the write-back accepted and not sent: past the caches, whatever is asked of
those that are not probed, and in any case for a single client. -/
theorem not_readInOrder :
    (¬∀ x, ((machine .mesi 2 1).restrict AcceptQuiet).Reachable x → ∀ t, ReadInOrder x.1 t) ∧
    ¬∀ x, (machine .mesi 1 1).Reachable x → ∀ t, ReadInOrder x.1 t := by
  constructor
  · intro h
    have hrun : ∃ x, Machine.runs (step (p := .mesi)) uncachedRead
        (agentReset 2 two_pos, start 2 1) = some x ∧
        (x.1.link 0).tracker.state = .sMemRead ∧ x.1.vol.state = .sMem ∧
        x.1.vol.xact.addr = (x.1.link 0).tracker.xact.addr := ⟨_, rfl, rfl, rfl, rfl⟩
    obtain ⟨x, hx, hst, hvol, haddr⟩ := hrun
    have hquiet : ∀ act ∈ uncachedRead, ∀ x, AcceptQuiet (p := .mesi) x act := fun act hact x => by
      refine acceptQuiet_of_coherent ?_
      rintro t c i inc rfl
      rcases (by simpa [uncachedRead, owner] using hact : _ ∨ _) with h | h <;> exact h.2.2.2
    exact h x (Machine.reachable_restrict_of_runs hquiet
      (.init ⟨Sys.isReset_reset .., rfl⟩) hx) 0 hst ⟨hvol, haddr⟩
  · intro h
    have hrun : ∃ x, Machine.runs (step (p := .mesi)) ownRead
        (agentReset 1 one_pos, start 1 1) = some x ∧
        (x.1.link 0).tracker.state = .sMemRead ∧ x.1.vol.state = .sMem ∧
        x.1.vol.xact.addr = (x.1.link 0).tracker.xact.addr := ⟨_, rfl, rfl, rfl, rfl⟩
    obtain ⟨x, hx, hst, hvol, haddr⟩ := hrun
    exact h x (Machine.reachable_of_runs (.init ⟨Sys.isReset_reset .., rfl⟩) hx) 0 hst
      ⟨hvol, haddr⟩

end WriteBack

end RiscvSoc
