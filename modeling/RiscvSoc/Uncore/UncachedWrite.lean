import RiscvSoc.Uncore.Permission

/-!
# Uncached writes

An uncached write, word write or atomic goes past every cache, so no cache may keep a copy of the
line from before it. The tracker sees to that with the probe it sends first, and only with that:
it neither looks at the states it leaves behind nor asks again.

MI, MEI and MESI invalidate for all three. The probe table of MSI stops after `acquireWriteUncached`,
so that a word write or an atomic takes the default, `probeCopy`, which leaves every copy where it
is. With one client nobody is probed at all.
-/

namespace RiscvSoc

open Bits TrackerLink

/-- The policies with uncached transactions. -/
inductive TilePolicy
  | mi | mei | msi | mesi
  deriving DecidableEq, Repr

namespace TilePolicy

def policy : TilePolicy → CoherencePolicy
  | mi => MICoherence
  | mei => MEICoherence
  | msi => MSICoherence
  | mesi => MESICoherence

def permissions : (p : TilePolicy) → Permissions p.policy
  | mi => MI.permissions
  | mei => MEI.permissions
  | msi => MSI.permissions
  | mesi => MESI.permissions

theorem acks (p : TilePolicy) : p.policy.Acks := by
  have hshared : ∀ a cnt, Sharing.getGrantType a cnt ≠ .grantVoluntaryAck := by
    intro a cnt
    cases a
    case acquireReadShared =>
      simp only [Sharing.getGrantType]
      split <;> decide
    all_goals exact fun h => Sharing.GrantType.noConfusion h
  intro a cnt
  cases p
  case mi => cases a <;> rfl
  case mei => cases a <;> rfl
  all_goals exact bne_iff_ne.mpr (hshared a cnt)

theorem uncached_of_hasData (p : TilePolicy) {a : p.policy.AcquireType}
    (h : p.policy.acquireHasData a = true) : p.policy.messageIsUncached a = true := by
  cases p <;> cases a <;> first | rfl | exact absurd h (by decide)

end TilePolicy

variable {P : CoherencePolicy} {n m : ℕ}

/-- From the moment an uncached write has probed everybody, through its outer write and its grant,
until it is finished, nobody holds a copy of its line. -/
def NoStaleCopy (s : Sys P n m) : Prop :=
  ∀ t, P.acquireHasData (s.link t).tracker.xact.aType = true →
    (s.link t).tracker.state ≠ .sIdle → (s.link t).tracker.state ≠ .sProbe →
    ∀ c, P.isValid (s.line c (s.link t).tracker.xact.addr) = false

/-- A write that is accepted probes to invalidate, or there is nothing to invalidate. -/
def WriteOk (s : Sys P n m) : Act P n m → Prop
  | .accept _ c i _ => ∀ a, s.acquires c i = some a → P.acquireHasData a.aType = true →
      (1 < n ∧ P.getProbeType a.aType = P.probeInvalidate) ∨
      ∀ c', P.isValid (s.line c' a.addr) = false
  | _ => True

/-- What a transaction leaves of the other copies: nothing if it writes, anything otherwise. -/
def writeBound (π : Permissions P) (a : P.AcquireType) : ℕ :=
  if P.acquireHasData a = true then 0 else max 2 (π.cap (P.getProbeType a))

theorem acceptOk_writeBound (π : Permissions P) {s s' : Sys P n m} {act : Act P n m}
    (hw : WriteOk s act) (hs : Handshake s act s') : AcceptOk π (writeBound π) s act := by
  cases act
  case accept t c i inc =>
    intro a ha c'
    by_cases hdata : P.acquireHasData a.aType = true
    · have hbound : writeBound π a.aType = 0 := if_pos hdata
      rw [hbound]
      rcases hw a ha hdata with ⟨hn, hinv⟩ | hnone
      · rcases hinc : inc c' with _ | _
        · refine .inr ⟨by simp [AcquireTracker.probeInitialFlags, hn, hinc], ?_⟩
          rw [hinv, π.cap_invalidate]
        · cases hs with
          | send _ _ hne => exact absurd rfl (hne t c i inc)
          | vol _ _ hne => exact absurd rfl (hne t c i inc)
          | @accept _ _ _ a' _ ha' _ _ hguard =>
            obtain rfl : a' = a := Option.some.inj (ha'.symm.trans ha)
            exact .inl ((π.level_eq_zero _).mpr (hguard c' hinc)).le
      · exact .inl ((π.level_eq_zero _).mpr (hnone c')).le
    · have hbound : writeBound π a.aType = max 2 (π.cap (P.getProbeType a.aType)) := if_neg hdata
      rw [hbound]
      exact .inl ((π.level_le _).trans (le_max_left _ _))
  all_goals trivial

theorem writeOk_of_ne_msi {p : TilePolicy} (hp : p ≠ .msi) (hn : 1 < n) (s : Sys p.policy n m)
    (act : Act p.policy n m) : WriteOk s act := by
  cases act
  case accept t c i inc =>
    intro a _ hdata
    refine .inl ⟨hn, ?_⟩
    obtain ⟨ty, _, _⟩ := a
    cases p
    case msi => exact absurd rfl hp
    all_goals cases ty <;> first | rfl | exact absurd hdata Bool.false_ne_true
  all_goals trivial

/-- **No stale copy.** In every run in which each accepted write probes to invalidate, or finds
nothing to invalidate, no client holds a copy of a line that is being written past it. With several
clients that is every run under MI, MEI and MESI. -/
theorem noStaleCopy (p : TilePolicy) (n m : ℕ) :
    (∀ s, ((Sys.machine p.policy n m).restrict WriteOk).Reachable s → NoStaleCopy s) ∧
    (p ≠ .msi → 1 < n → ∀ s, (Sys.machine p.policy n m).Reachable s → NoStaleCopy s) := by
  have hstale : ∀ s, ((Sys.machine p.policy n m).restrict WriteOk).Reachable s → NoStaleCopy s := by
    have hinv : ∀ s, ((Sys.machine p.policy n m).restrict WriteOk).Reachable s →
        Probed p.permissions (writeBound p.permissions) s := by
      refine Machine.invariant (fun s h => .of_isReset h) fun s act s' hr h hstep => ?_
      have hhs := handshake_of_step hstep.2
      exact h.step p.acks (sysOk_of_reachable p.acks s hr.of_restrict)
        (acceptOk_writeBound _ hstep.1 hhs) hhs
    intro s hs t hdata hidle hprobe c
    have hok := sysOk_of_reachable p.acks s hs.of_restrict
    have hle := (hinv s hs).level_le hok ⟨hidle, .inr (p.uncached_of_hasData hdata)⟩ hprobe c
    have hbound : writeBound p.permissions (s.link t).tracker.xact.aType = 0 := if_pos hdata
    exact (p.permissions.level_eq_zero _).mp (Nat.le_zero.mp (hbound ▸ hle))
  refine ⟨hstale, fun hp hn s hs => hstale s ?_⟩
  induction hs with
  | init h => exact .init h
  | step _ hstep ih => exact .step ih ⟨writeOk_of_ne_msi hp hn _ _, hstep⟩

/-- Client `0` becomes the owner of line `0`, and client `1` writes a word of it. -/
def wordWrite {P : CoherencePolicy} (a : P.AcquireType) : List (Act P 2 1) :=
  [.miss 0 0 0 .xwr [], .accept 0 0 0 fun _ => false, .sendProbe 0 0, .sendProbe 0 1,
    .probed 0 0, .probed 0 1, .recvRelease 0 0, .recvRelease 0 1, .memRead 0, .outerGrant 0,
    .granted 0, .recvAck 0,
    .uncached 1 ⟨a, 0, 0⟩,
    .accept 0 1 0 fun _ => false, .sendProbe 0 0, .sendProbe 0 1,
    .probed 0 0, .probed 0 1, .recvRelease 0 0, .recvRelease 0 1, .memWrite 0, .memRead 0,
    .outerGrant 0, .granted 0]

/-- Under MESI the owner has lost the line when the word write is granted. -/
theorem noStaleCopy_mesi : ∃ s : Sys MESICoherence 2 1,
    Machine.runs Sys.step (wordWrite Sharing.AcquireType.acquireWriteWordUncached)
      (Sys.reset two_pos 1 Sharing.AcquireType.acquireReadShared
        ReleaseType.releaseInvalidateAck) = some s ∧
      (s.link 0).tracker.state = .sBusy ∧
      (s.link 0).tracker.xact = ⟨Sharing.AcquireType.acquireWriteWordUncached, 0, 0⟩ ∧
      NoStaleCopy s := by
  have hrun : ∃ s : Sys MESICoherence 2 1,
      Machine.runs Sys.step (wordWrite Sharing.AcquireType.acquireWriteWordUncached)
        (Sys.reset two_pos 1 Sharing.AcquireType.acquireReadShared
          ReleaseType.releaseInvalidateAck) = some s ∧
        (s.link 0).tracker.state = .sBusy ∧ (s.link 0).tracker.xact =
          ⟨Sharing.AcquireType.acquireWriteWordUncached, 0, 0⟩ := ⟨_, rfl, rfl, rfl⟩
  obtain ⟨s, hs, hst, hxact⟩ := hrun
  refine ⟨s, hs, hst, hxact, (noStaleCopy .mesi 2 1).1 s (Machine.reachable_restrict_of_runs ?_
    (.init (Sys.isReset_reset ..)) hs)⟩
  exact fun act _ x => writeOk_of_ne_msi (p := .mesi) (by decide) (by decide) x act

/-- Under MSI it is granted while client `0` still holds the line dirty. -/
theorem not_noStaleCopy_msi : ¬∀ s, (Sys.machine MSICoherence 2 1).Reachable s → NoStaleCopy s := by
  intro h
  have hrun : ∃ s : Sys MSICoherence 2 1,
      Machine.runs Sys.step (wordWrite Sharing.AcquireType.acquireWriteWordUncached)
        (Sys.reset two_pos 1 Sharing.AcquireType.acquireReadShared
          ReleaseType.releaseInvalidateAck) = some s ∧
      (s.link 0).tracker.state = .sBusy ∧
      (s.link 0).tracker.xact = ⟨Sharing.AcquireType.acquireWriteWordUncached, 0, 0⟩ ∧
      s.line 0 0 = MSI.ClientState.tileExclusiveDirty := ⟨_, rfl, rfl, rfl, rfl⟩
  obtain ⟨s, hs, hst, hxact, hline⟩ := hrun
  have hreach := Machine.reachable_of_runs (.init (Sys.isReset_reset ..)) hs
  have hvalid := h s hreach 0 (by rw [hxact]; rfl) (by rw [hst]; decide) (by rw [hst]; decide) 0
  rw [hxact, hline] at hvalid
  exact absurd hvalid (by decide)

end RiscvSoc
