import Mathlib.Data.Fin.Tuple.Basic
import RiscvSoc.Lib.Arbiter
import RiscvSoc.Uncore.L2Agent

/-!
# How the L2 agent hands acquires to its trackers

`L2CoherenceAgent` once more, now clock cycle by clock cycle. The trackers stand in one list, the
voluntary release trackers first. In a cycle every tracker says whether it is idle and whether the
acquire at the port would collide with its own line; the port is ready if no tracker objects and
some tracker is idle, and the allocation arbiter shows the acquire to one of the idle trackers.

The three signals are computed from the same registers in the same cycle, and nothing else ties
them together. The agent is right only if they agree.

## What the other ports do

The probe, release, grant and memory ports of a tracker are inputs here, one set for each tracker:
whatever the arbiters behind them and the clients do in a cycle is some choice of these inputs.
-/

namespace RiscvSoc

variable {P : CoherencePolicy} {n k m : ℕ}

/-! ### The trackers -/

/-- What the ports of one tracker see in a cycle, except for the acquire port. -/
structure TrackerPorts (P : CoherencePolicy) (n : ℕ) where
  probeReady : Bool
  /-- The release at the port, and who sent it. -/
  release : Option (Fin n × Release P)
  masterAcquireReady : Bool
  grantReady : Bool
  /-- `grant_ack.valid`, and the message carries this tracker's id. -/
  grantAck : Bool

/-- The registers of a `VoluntaryReleaseTracker`. -/
structure ReleaseRegs (P : CoherencePolicy) (n : ℕ) where
  state : VoluntaryReleaseState
  xact : Release P
  initClientId : Fin n

/-- One clock cycle of a `VoluntaryReleaseTracker`. -/
def ReleaseRegs.cycle (t : ReleaseRegs P n) (p : TrackerPorts P n) : ReleaseRegs P n :=
  match t.state with
  | .sIdle =>
    match p.release with
    | some (src, r) => ⟨if P.releaseHasData r.rType then .sMem else .sAck, r, src⟩
    | none => t
  | .sMem => if p.masterAcquireReady then { t with state := .sAck } else t
  | .sAck => if p.grantReady then { t with state := .sIdle } else t

namespace AcquireTracker

variable (t : AcquireTracker P n)

/-- `s_probe`: the probe of `curr_p_id` is taken if there is one. -/
def takeProbe : AcquireTracker P n :=
  match priorityEncoder t.probeFlags with
  | some c => t.sendProbe c
  | none => t

/-- `s_probe`: a release, which has to wait for the outer port if it has data. -/
def takeRelease (p : TrackerPorts P n) : AcquireTracker P n :=
  match p.release with
  | some (_, r) =>
    if P.releaseHasData r.rType && !p.masterAcquireReady then t else t.recvRelease
  | none => t

/-- One clock cycle of an `AcquireTracker`. -/
def cycle (acquire : Option (Fin n × Acquire P)) (incoherent : Fin n → Bool)
    (p : TrackerPorts P n) : AcquireTracker P n :=
  match t.state with
  | .sIdle =>
    match acquire with
    | some (src, a) => t.accept src a incoherent
    | none => t
  | .sProbe => (if p.probeReady then t.takeProbe else t).takeRelease p
  | .sMemRead => if p.masterAcquireReady then t.awaitAck else t
  | .sMemWrite => if p.masterAcquireReady then t.memWrite else t
  | .sMakeGrant => if p.grantReady then t.awaitAck else t
  | .sBusy => if p.grantAck then t.recvAck else t

/-- The tracker works on a transaction. -/
def Busy : Prop := t.state ≠ .sIdle

instance : Decidable t.Busy := inferInstanceAs (Decidable (_ ≠ _))

variable {t}

theorem afterProbe_ne_idle : t.afterProbe ≠ .sIdle := by
  rw [afterProbe]
  split
  · exact AcquireTrackerState.noConfusion
  · split <;> exact AcquireTrackerState.noConfusion

theorem busy_accept (src : Fin n) (a : Acquire P) (incoherent : Fin n → Bool) :
    (t.accept src a incoherent).Busy := by
  rw [Busy, accept]
  dsimp only
  split
  · exact AcquireTrackerState.noConfusion
  · exact afterProbe_ne_idle

theorem xact_cycle (hbusy : t.Busy) (acquire : Option (Fin n × Acquire P))
    (incoherent : Fin n → Bool) (p : TrackerPorts P n) :
    (t.cycle acquire incoherent p).xact = t.xact ∧
      (t.cycle acquire incoherent p).initClientId = t.initClientId := by
  have hprobe : t.takeProbe.xact = t.xact ∧ t.takeProbe.initClientId = t.initClientId := by
    rw [takeProbe]
    split <;> exact ⟨rfl, rfl⟩
  have hrelease : ∀ t' : AcquireTracker P n, (t'.takeRelease p).xact = t'.xact ∧
      (t'.takeRelease p).initClientId = t'.initClientId := by
    intro t'
    rw [takeRelease]
    split
    · split <;> exact ⟨rfl, rfl⟩
    · exact ⟨rfl, rfl⟩
  cases hstate : t.state with
  | sIdle => exact absurd hstate hbusy
  | sProbe =>
    obtain ⟨hxact, hclient⟩ := hrelease (if p.probeReady then t.takeProbe else t)
    simp only [cycle, hstate]
    rw [hxact, hclient]
    split
    · exact hprobe
    · exact ⟨rfl, rfl⟩
  | sMemRead | sMemWrite | sMakeGrant | sBusy =>
    simp only [cycle, hstate]
    split <;> exact ⟨rfl, rfl⟩

end AcquireTracker

/-! ### The agent -/

/-- The registers of the agent: `k` voluntary release trackers and `m` acquire trackers. -/
structure L2CoherenceAgent (P : CoherencePolicy) (n k m : ℕ) where
  vol : Fin k → ReleaseRegs P n
  acq : Fin m → AcquireTracker P n

/-- The inputs of one cycle. -/
structure L2Input (P : CoherencePolicy) (n k m : ℕ) where
  /-- The acquire at the port, if `valid` is up, and who sent it. -/
  acquire : Option (Fin n × Acquire P)
  incoherent : Fin n → Bool
  ports : Fin (k + m) → TrackerPorts P n

namespace L2CoherenceAgent

variable (s : L2CoherenceAgent P n k m) (i : L2Input P n k m)

/-- `acquire.ready` of each tracker of the list. -/
def trackerReady : Fin (k + m) → Bool :=
  Fin.append (fun _ => false) fun t => decide ((s.acq t).state = .sIdle)

/-- `has_acquire_conflict` of each tracker of the list, for an acquire of line `addr`. -/
def hasAcquireConflict (addr : ℕ) : Fin (k + m) → Bool :=
  Fin.append (fun _ => false) fun t =>
    decide ((s.acq t).xact.addr = addr) && decide ((s.acq t).state ≠ .sIdle)

/-- `block_acquires`. Without an acquire at the port nobody looks at it. -/
def blockAcquires : Bool := i.acquire.any fun a => orR (s.hasAcquireConflict a.2.addr)

/-- `io.client.acquire.ready`. -/
def acquireReady : Bool := orR s.trackerReady && !s.blockAcquires i

/-- `alloc_arb.io.out.ready`. -/
def allocReady : Bool := i.acquire.isSome && !s.blockAcquires i

/-- `acquire.valid` and `acquire.bits` of tracker `t`. -/
def shown (t : Fin (k + m)) : Option (Fin n × Acquire P) :=
  if Arbiter.inReady s.trackerReady (s.allocReady i) t then i.acquire else none

/-- One clock cycle. -/
def next : L2CoherenceAgent P n k m where
  vol t := (s.vol t).cycle (i.ports (Fin.castAdd m t))
  acq t := (s.acq t).cycle (s.shown i (Fin.natAdd k t)) i.incoherent (i.ports (Fin.natAdd k t))

/-- Reset: every tracker is idle. -/
structure IsReset : Prop where
  vol : ∀ t, (s.vol t).state = .sIdle
  acq : ∀ t, (s.acq t).state = .sIdle

/-- The runs of the agent. -/
def machine (P : CoherencePolicy) (n k m : ℕ) :
    Machine (L2CoherenceAgent P n k m) (L2Input P n k m) := Machine.clocked IsReset next

/-! ### Acquires and transactions -/

/-- What the client port hands over in a cycle. -/
def accepted : List (Fin n × Acquire P) := if s.acquireReady i then i.acquire.toList else []

/-- What the trackers start on in a cycle. -/
def started : List (Fin m × Fin n × Acquire P) :=
  (List.finRange m).filterMap fun t =>
    if (s.acq t).state = .sIdle then (s.shown i (Fin.natAdd k t)).map fun a => (t, a) else none

/-- What the client port handed over in some cycles, in order. -/
def acceptedIn : List (L2Input P n k m) → L2CoherenceAgent P n k m → List (Fin n × Acquire P)
  | [], _ => []
  | i :: is, s => s.accepted i ++ acceptedIn is (s.next i)

/-- What the trackers started on in some cycles, in order. -/
def startedIn :
    List (L2Input P n k m) → L2CoherenceAgent P n k m → List (Fin m × Fin n × Acquire P)
  | [], _ => []
  | i :: is, s => s.started i ++ startedIn is (s.next i)

/-! ### The allocation signals agree -/

variable {s i}

theorem blockAcquires_eq_false {src : Fin n} {a : Acquire P} (hi : i.acquire = some (src, a)) :
    s.blockAcquires i = false ↔ ∀ t, (s.acq t).Busy → (s.acq t).xact.addr ≠ a.addr := by
  rw [blockAcquires, hi, Option.any_some, ← Bool.not_eq_true, orR_eq_true, not_exists]
  constructor
  · intro h t hbusy heq
    refine h (Fin.natAdd k t) ?_
    rw [hasAcquireConflict, Fin.append_right, decide_eq_true heq]
    exact decide_eq_true hbusy
  · intro h t
    induction t using Fin.addCases with
    | left t =>
      rw [hasAcquireConflict, Fin.append_left]
      exact Bool.false_ne_true
    | right t =>
      rw [hasAcquireConflict, Fin.append_right, Bool.and_eq_true, decide_eq_true_eq,
        decide_eq_true_eq]
      exact fun ⟨heq, hbusy⟩ => h t hbusy heq

variable {t : Fin m} {a : Fin n × Acquire P}

/-- An idle tracker is shown the acquire exactly if the arbiter serves it. -/
theorem shown_of_idle (hidle : (s.acq t).state = .sIdle) :
    s.shown i (Fin.natAdd k t) =
      if Arbiter.fires s.trackerReady (s.allocReady i) (Fin.natAdd k t) then i.acquire else
        none := by
  rw [shown, Arbiter.fires, trackerReady, Fin.append_right, decide_eq_true hidle, Bool.true_and]

/-- **An acquire the port takes goes to exactly one idle tracker.** -/
theorem exists_started (hready : s.acquireReady i = true)
    (hi : i.acquire = some a) : ∃ t, (s.acq t).state = .sIdle ∧
      ∀ t', (s.acq t').state = .sIdle →
        s.shown i (Fin.natAdd k t') = if t' = t then some a else none := by
  rw [acquireReady, Bool.and_eq_true] at hready
  have halloc : s.allocReady i = true := by rw [allocReady, hready.2, hi]; rfl
  obtain ⟨j, hj⟩ := Arbiter.exists_fires hready.1 halloc
  have hup := (Bool.and_eq_true_iff.mp hj).1
  induction j using Fin.addCases with
  | left j =>
    rw [trackerReady, Fin.append_left] at hup
    cases hup
  | right t =>
    rw [trackerReady, Fin.append_right, decide_eq_true_eq] at hup
    refine ⟨t, hup, fun t' hidle => ?_⟩
    rw [shown_of_idle hidle]
    by_cases heq : t' = t
    · rw [heq, if_pos hj, if_pos rfl, hi]
    · have hno : ¬Arbiter.fires s.trackerReady (s.allocReady i) (Fin.natAdd k t') = true :=
        fun h => heq (Fin.natAdd_injective m k (Arbiter.fires_inj h hj))
      rw [if_neg hno, if_neg heq]

/-- When the port does not take an acquire no idle tracker sees one. -/
theorem shown_of_not_accepted (h : s.accepted i = [])
    (hidle : (s.acq t).state = .sIdle) : s.shown i (Fin.natAdd k t) = none := by
  rw [shown_of_idle hidle]
  cases hi : i.acquire with
  | none => split <;> rfl
  | some a =>
    refine if_neg fun hfires => ?_
    have halloc := (Arbiter.fires_eq_true.mp hfires).1
    rw [allocReady, Bool.and_eq_true] at halloc
    have hany : orR s.trackerReady = true :=
      orR_eq_true.mpr ⟨_, (Bool.and_eq_true_iff.mp hfires).1⟩
    rw [accepted, acquireReady, hany, halloc.2, hi] at h
    cases h

/-- **One cycle loses and doubles nothing.** -/
theorem map_started : (s.started i).map Prod.snd = s.accepted i := by
  by_cases haccepted : s.accepted i = []
  · have hnone : s.started i = [] := by
      refine List.filterMap_eq_nil_iff.mpr fun t _ => ?_
      by_cases hidle : (s.acq t).state = .sIdle
      · rw [if_pos hidle, shown_of_not_accepted haccepted hidle]
        rfl
      · exact if_neg hidle
    rw [hnone, haccepted]
    rfl
  · obtain ⟨hready, a, hi⟩ : s.acquireReady i = true ∧ ∃ a, i.acquire = some a := by
      rw [accepted] at haccepted
      split at haccepted
      · rename_i hready
        refine ⟨hready, Option.ne_none_iff_exists'.mp fun hnone => haccepted ?_⟩
        rw [hnone]
        rfl
      · exact absurd rfl haccepted
    obtain ⟨t, hidle, hshown⟩ := exists_started hready hi
    have hone : s.started i = [(t, a)] := by
      rw [← filterMap_single (List.nodup_finRange m) (List.mem_finRange t) (t, a)]
      refine List.filterMap_congr fun t' _ => ?_
      by_cases hidle' : (s.acq t').state = .sIdle
      · rw [if_pos hidle', hshown t' hidle']
        by_cases heq : t' = t
        · rw [if_pos heq, if_pos heq, heq]
          rfl
        · rw [if_neg heq, if_neg heq]
          rfl
      · have hne : t' ≠ t := fun heq => hidle' (heq ▸ hidle)
        rw [if_neg hidle', if_neg hne]
    rw [hone, accepted, if_pos hready, hi]
    rfl

theorem mem_started : (t, a) ∈ s.started i ↔
    (s.acq t).state = .sIdle ∧ s.shown i (Fin.natAdd k t) = some a := by
  rw [started, List.mem_filterMap]
  constructor
  · rintro ⟨t', _, h⟩
    split at h
    · rename_i hidle
      obtain ⟨a', ha', heq⟩ := Option.map_eq_some_iff.mp h
      cases heq
      exact ⟨hidle, ha'⟩
    · cases h
  · rintro ⟨hidle, hshown⟩
    refine ⟨t, List.mem_finRange t, ?_⟩
    rw [if_pos hidle, hshown]
    rfl

/-- What a tracker does in a cycle: it starts on an acquire, or it keeps its transaction. -/
theorem acq_next_cases (s : L2CoherenceAgent P n k m) (i : L2Input P n k m) (t : Fin m) :
    (∃ a, (t, a) ∈ s.started i ∧ (s.next i).acq t = (s.acq t).accept a.1 a.2 i.incoherent) ∨
    ((s.acq t).state = .sIdle ∧ (∀ a, (t, a) ∉ s.started i) ∧ (s.next i).acq t = s.acq t) ∨
    ((s.acq t).Busy ∧ ((s.next i).acq t).xact = (s.acq t).xact ∧
      ((s.next i).acq t).initClientId = (s.acq t).initClientId) := by
  by_cases hidle : (s.acq t).state = .sIdle
  · have hnext : (s.next i).acq t = match s.shown i (Fin.natAdd k t) with
        | some (src, a) => (s.acq t).accept src a i.incoherent
        | none => s.acq t := by
      simp only [next, AcquireTracker.cycle, hidle]
    cases hshown : s.shown i (Fin.natAdd k t) with
    | none =>
      rw [hshown] at hnext
      refine .inr (.inl ⟨hidle, fun a ha => ?_, hnext⟩)
      rw [(mem_started.mp ha).2] at hshown
      cases hshown
    | some a =>
      rw [hshown] at hnext
      exact .inl ⟨a, mem_started.mpr ⟨hidle, hshown⟩, hnext⟩
  · exact .inr (.inr ⟨hidle, AcquireTracker.xact_cycle hidle _ _ _⟩)

/-! ### One transaction a line -/

/-- No two trackers work on one line. -/
def OneTracker (s : L2CoherenceAgent P n k m) : Prop :=
  ∀ t t', (s.acq t).Busy → (s.acq t').Busy → (s.acq t).xact.addr = (s.acq t').xact.addr → t = t'

/-- The port takes what a tracker starts on, and no tracker works on its line. -/
theorem no_conflict_of_started (h : (t, a) ∈ s.started i) :
    ∀ t', (s.acq t').Busy → (s.acq t').xact.addr ≠ a.2.addr := by
  have hmem : a ∈ s.accepted i := by
    rw [← map_started]
    exact List.mem_map.mpr ⟨_, h, rfl⟩
  rw [accepted] at hmem
  split at hmem
  · rename_i hready
    rw [acquireReady, Bool.and_eq_true, Bool.not_eq_true'] at hready
    exact (blockAcquires_eq_false (Option.mem_toList.mp hmem)).mp hready.2
  · cases hmem

theorem started_inj {t t' : Fin m} {a a' : Fin n × Acquire P} (h : (t, a) ∈ s.started i)
    (h' : (t', a') ∈ s.started i) : t = t' := by
  obtain ⟨hidle, hshown⟩ := mem_started.mp h
  obtain ⟨hidle', hshown'⟩ := mem_started.mp h'
  rw [shown_of_idle hidle] at hshown
  rw [shown_of_idle hidle'] at hshown'
  split at hshown
  · rename_i hfires
    split at hshown'
    · rename_i hfires'
      exact Fin.natAdd_injective m k (Arbiter.fires_inj hfires hfires')
    · cases hshown'
  · cases hshown

theorem OneTracker.next (h : s.OneTracker) (i : L2Input P n k m) : (s.next i).OneTracker := by
  -- a tracker that is busy afterwards has started, or it was busy with the same line
  have hcases : ∀ t, ((s.next i).acq t).Busy →
      (∃ a, (t, a) ∈ s.started i ∧ ((s.next i).acq t).xact = a.2) ∨
        (s.acq t).Busy ∧ ((s.next i).acq t).xact = (s.acq t).xact := by
    intro t hbusy
    rcases acq_next_cases s i t with ⟨a, ha, hnext⟩ | ⟨hidle, _, hnext⟩ | ⟨hold, hxact, _⟩
    · exact .inl ⟨a, ha, by rw [hnext]; rfl⟩
    · rw [hnext] at hbusy
      exact absurd hidle hbusy
    · exact .inr ⟨hold, hxact⟩
  intro t t' hbusy hbusy' heq
  rcases hcases t hbusy with ⟨a, ha, hxact⟩ | ⟨hold, hxact⟩
  · rcases hcases t' hbusy' with ⟨a', ha', _⟩ | ⟨hold', hxact'⟩
    · exact started_inj ha ha'
    · rw [hxact, hxact'] at heq
      exact absurd heq.symm (no_conflict_of_started ha t' hold')
  · rcases hcases t' hbusy' with ⟨a', ha', hxact'⟩ | ⟨hold', hxact'⟩
    · rw [hxact, hxact'] at heq
      exact absurd heq (no_conflict_of_started ha' t hold)
    · rw [hxact, hxact'] at heq
      exact h t t' hold hold' heq

theorem reachable_oneTracker (h : (machine P n k m).Reachable s) : s.OneTracker := by
  refine Machine.invariant (I := OneTracker) (fun s h t _ hbusy => ?_) ?_ s h
  · exact absurd (IsReset.acq h t) hbusy
  · rintro s i _ _ h rfl
    exact h.next i

/-- **One transaction a line.** In every reachable state no two acquire trackers are busy with the
same line. What the client port hands over in a run is what the trackers start on, one tracker for
each acquire and in the same order; the tracker that starts was idle, it is busy afterwards with
the acquire it was shown, and no other tracker becomes busy in that cycle. -/
theorem one_tracker_per_line (P : CoherencePolicy) (n k m : ℕ) :
    (∀ s, (machine P n k m).Reachable s → s.OneTracker) ∧
    (∀ (s : L2CoherenceAgent P n k m) is, (startedIn is s).map Prod.snd = acceptedIn is s) ∧
    ∀ (s : L2CoherenceAgent P n k m) i t, (s.acq t).state = .sIdle →
      (((s.next i).acq t).Busy ↔ ∃ a, (t, a) ∈ s.started i) ∧
      ∀ a, (t, a) ∈ s.started i → ((s.next i).acq t).xact = a.2 ∧
        ((s.next i).acq t).initClientId = a.1 := by
  refine ⟨fun s h => reachable_oneTracker h, fun s is => ?_, fun s i t hidle => ?_⟩
  · induction is generalizing s with
    | nil => rfl
    | cons i is ih => rw [startedIn, acceptedIn, List.map_append, map_started, ih]
  · rcases acq_next_cases s i t with ⟨a, ha, hnext⟩ | ⟨_, hno, hnext⟩ | ⟨hbusy, _⟩
    · rw [hnext]
      refine ⟨iff_of_true (AcquireTracker.busy_accept _ _ _) ⟨a, ha⟩, fun a' ha' => ?_⟩
      have heq := (mem_started.mp ha).2.symm.trans (mem_started.mp ha').2
      cases heq
      exact ⟨rfl, rfl⟩
    · rw [hnext]
      exact ⟨⟨fun hbusy => absurd hidle hbusy, fun ⟨a, ha⟩ => absurd ha (hno a)⟩,
        fun a ha => absurd ha (hno a)⟩
    · exact absurd hidle hbusy

end L2CoherenceAgent

end RiscvSoc
