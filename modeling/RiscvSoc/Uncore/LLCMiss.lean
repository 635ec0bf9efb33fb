import Mathlib.Algebra.BigOperators.Group.Finset.Basic
import Mathlib.Data.Fintype.BigOperators
import RiscvSoc.Uncore.LLCRefill
import RiscvSoc.Uncore.LLCWrite

/-!
# Misses of the last-level cache

A read miss takes an MSHR. If the line it replaces is dirty, that line is read out of the data
array first; then the MSHR asks memory for its line, the beats that come back are written into the
data array, and when all have come the read is sent to the data array again.

Nothing in an MSHR says that its victim has been read out. It is in the data array's request
register from the cycle in which it is handed over (`wb_busy`), and while it is there the data array
is not ready; so when the data array is ready again, the victim is out, and only then the MSHR may
ask for its line (`MissSlot.victim`).

## What memory promises

It answers each read that it took with `refillCycles` beats, in any order, also interleaved with
those of other reads.
-/

namespace RiscvSoc

open LLCMSHRFile

variable {c : LLCConf} {D : Type}

structure MissLog (c : LLCConf) where
  /-- The read misses that took an MSHR. -/
  missed : Multiset MemReqCmd
  /-- The reads that the data array took from an MSHR. -/
  replayed : Multiset MemReqCmd
  /-- The line that is replaced was dirty. -/
  dirty : Fin c.outstanding → Bool
  /-- The places that were read for a write-back, in the way and the set of this MSHR. -/
  read : Fin c.outstanding → List (LLCDataAddr c)
  /-- The line that memory was asked for, and the way it is for. -/
  asked : Fin c.outstanding → Option (ℕ × Fin c.ways)
  /-- How many beats came back. -/
  beats : Fin c.outstanding → ℕ

def MissLog.empty : MissLog c := ⟨0, 0, fun _ => false, fun _ => [], fun _ => none, fun _ => 0⟩

namespace DRAMSideLLC

variable (s : DRAMSideLLC c D) (i : LLCInput c D) (g : MissLog c) (j : Fin c.outstanding)

/-- The request that the data array serves. -/
def served : Option (LLCDataReq c) := s.data.current s.dataReq s.victimReady

/-- The place that is read for a write-back. -/
def victimRead : Option (LLCDataAddr c) :=
  match s.served, s.arrayIn i with
  | some r, some (.read a) => if r.isWriteback then some a else none
  | _, _ => none

/-- The read that the data array takes from an MSHR. -/
def replay : Option (LLCDataReq c) :=
  if s.dataReady then s.mshrData.filter fun r => !r.isWriteback else none

/-- A place in the line of an MSHR. -/
def inLine (a : LLCDataAddr c) : Bool :=
  decide (a.way = (s.mshr.mshr j).way ∧ a.set = (s.mshr.mshr j).addr % c.sets)

/-- The log goes on. -/
def nextMissLog : MissLog c where
  missed := g.missed + (s.missAlloc.map (·.1)).toList
  replayed := g.replayed + (s.replay.map (·.toMemReqCmd)).toList
  dirty j := match s.allocTo j with
    | some a => a.2.2.dirty && a.2.2.valid
    | none => g.dirty j
  read j := match s.allocTo j with
    | some _ => []
    | none => g.read j ++ (s.victimRead i).toList.filter (s.inLine j)
  asked j := match s.allocTo j with
    | some _ => none
    | none =>
      if s.refillReq = some j ∧ i.memCmdReady then
        some ((s.mshr.mshr j).addr, (s.mshr.mshr j).way)
      else g.asked j
  beats j := match s.allocTo j with
    | some _ => 0
    | none => if i.memResp.map (·.1) = some j then g.beats j + 1 else g.beats j

/-- What memory promises: a beat is for a read that it took and that has not had all of its
beats. -/
def MemoryOk (x : DRAMSideLLC c D × MissLog c) (i : LLCInput c D) : Prop :=
  ∀ j d, i.memResp = some (j, d) → (x.2.asked j).isSome = true ∧ x.2.beats j < c.refillCycles

/-- The runs in which memory keeps its promise. -/
def missMachine (c : LLCConf) (D : Type) : Machine (DRAMSideLLC c D × MissLog c) (LLCInput c D) :=
  ((machine c D).observe .empty nextMissLog).restrict MemoryOk

/-! ### The data array and the victims -/

variable {s i g j} {a : MemReqCmd × Fin c.ways × LLCMeta}

/-- The request to read out the victim of an MSHR. -/
def victimData (s : DRAMSideLLC c D) (j : Fin c.outstanding) : LLCDataReq c :=
  ⟨⟨false, (s.mshr.mshr j).victim, 0⟩, (s.mshr.mshr j).way, true⟩

theorem victim_mod (m : MSHR c) : m.victim % c.sets = m.addr % c.sets := by
  rw [MSHR.victim, Nat.mul_add_mod_self_right, Nat.mod_mod]

/-- A beat is taken by the array for the request that is served. -/
def steps (s : DRAMSideLLC c D) (i : LLCInput c D) : Bool :=
  s.data.counting s.dataReq s.victimReady i.reqData (s.refillBeat i)

theorem data_next : (s.next i).data.valid = (s.served.isSome &&
      !(s.steps i && s.data.valid && decide (s.data.count = c.refillCycles - 1))) ∧
    (s.next i).data.req = s.served.getD s.data.req ∧
    (s.next i).data.count =
      if s.steps i then (s.data.count + 1) % c.refillCycles else s.data.count :=
  LLCData.next_eq rfl rfl

theorem not_valid_of_dataReady (h : s.dataReady = true) : s.data.valid = false := by
  rw [dataReady, LLCData.reqReady, Bool.and_eq_true, Bool.not_eq_true'] at h
  exact h.1

/-- A victim that is handed over is served from this cycle on. -/
theorem served_of_victimFire (h : s.victimFire = some j) :
    s.dataReady = true ∧ s.served = some (s.victimData j) := by
  rw [victimFire, writebackFire] at h
  split at h
  · rename_i hfire
    obtain ⟨hready, hnone⟩ := Bool.and_eq_true_iff.mp hfire
    have hdata : s.mshrData = some (s.victimData j) := by
      rw [mshrData, LLCMSHRFile.data, Option.isNone_iff_eq_none.mp hnone, h]
      rfl
    have hreq : s.dataReq = some (s.victimData j) := by rw [dataReq, hdata]; rfl
    refine ⟨hready, ?_⟩
    have hidle := not_valid_of_dataReady hready
    rw [dataReady, hreq] at hready
    rw [served, LLCData.current, if_neg (by rw [hidle]; exact Bool.false_ne_true), hreq]
    exact if_pos hready
  · cases h

/-- A victim that is served was handed over in this cycle, or is in the request register. -/
theorem victim_of_served {r : LLCDataReq c} (h : s.served = some r) (hwb : r.isWriteback = true) :
    s.data.valid = true ∧ r = s.data.req ∨
      ∃ j, s.victimFire = some j ∧ r = s.victimData j := by
  rw [served, LLCData.current] at h
  split at h
  · rename_i hvalid
    exact .inl ⟨hvalid, (Option.some.inj h).symm⟩
  · right
    obtain ⟨hreq, hready⟩ := Option.filter_eq_some_iff.mp h
    have hdataReady : s.dataReady = true := by rwa [dataReady, hreq]
    rcases hm : s.mshrData with _ | r'
    · rw [dataReq, hm] at hreq
      rw [(hitReq_eq hreq).2] at hwb
      cases hwb
    · rw [dataReq, hm] at hreq
      obtain rfl : r' = r := Option.some.inj hreq
      rw [mshrData, LLCMSHRFile.data] at hm
      split at hm
      · split at hm
        · cases hm
          cases hwb
        · cases hm
      · rename_i hnone
        obtain ⟨j, hj, rfl⟩ := Option.map_eq_some_iff.mp hm
        refine ⟨j, ?_, rfl⟩
        rw [victimFire, writebackFire, hdataReady, hnone]
        exact hj

/-- Nothing is served by an idle data array that is not ready. -/
theorem served_eq_none (hidle : s.data.valid = false) (h : s.dataReady = false) :
    s.served = none := by
  rw [served, LLCData.current, if_neg (by rw [hidle]; exact Bool.false_ne_true)]
  cases hreq : s.dataReq with
  | none => rfl
  | some r =>
    rw [dataReady, hreq] at h
    exact if_neg (Bool.eq_false_iff.mp h)

/-- While a victim is served, its places are read one after the other. -/
theorem victimRead_of_served (h : s.served = some (s.victimData j)) :
    s.victimRead i = if s.steps i then
      some ⟨(s.mshr.mshr j).way, (s.mshr.mshr j).addr % c.sets, s.data.count⟩ else none := by
  have hcur : s.data.current s.dataReq s.victimReady = some (s.victimData j) := h
  rw [victimRead, h, steps, LLCData.counting_eq, hcur, arrayIn]
  cases s.refillBeat i with
  | some beat => rfl
  | none =>
    have harray : s.data.arrayIn s.dataReq s.victimReady i.reqData none =
        if s.data.qReady then some (.read
          ⟨(s.mshr.mshr j).way, (s.mshr.mshr j).victim % c.sets, s.data.count⟩) else none := by
      rw [LLCData.arrayIn, hcur]
      rfl
    rw [harray, victim_mod]
    show _ = if true && s.data.qReady then _ else _
    rw [Bool.true_and]
    cases s.data.qReady <;> rfl

theorem victimRead_eq_none (h : ∀ r, s.served = some r → r.isWriteback = false) :
    s.victimRead i = none := by
  rw [victimRead]
  split
  · rename_i r a hserved _
    rw [h r hserved]
    rfl
  · rfl

/-! ### The invariant -/

/-- The first `n` places of the line of an MSHR. -/
def places (s : DRAMSideLLC c D) (j : Fin c.outstanding) (n : ℕ) : List (LLCDataAddr c) :=
  (List.range n).map fun beat => ⟨(s.mshr.mshr j).way, (s.mshr.mshr j).addr % c.sets, beat⟩

/-- How many places of the victim have been read. -/
def readCount (s : DRAMSideLLC c D) (g : MissLog c) (j : Fin c.outstanding) : ℕ :=
  if !g.dirty j || (s.mshr.mshr j).oldDirty then 0
  else if (s.mshr.mshr j).wbBusy && s.data.valid then s.data.count
  else c.refillCycles

/-- What an MSHR in use has asked for, and what came back. -/
structure AskSlot (s : DRAMSideLLC c D) (g : MissLog c) (j : Fin c.outstanding) : Prop where
  asked : g.asked j = if (s.mshr.mshr j).requested then
    some ((s.mshr.mshr j).addr, (s.mshr.mshr j).way) else none
  beats : g.beats j =
    if (s.mshr.mshr j).refilled then c.refillCycles else (s.mshr.mshr j).refillCount
  lt : (s.mshr.mshr j).refillCount < c.refillCycles
  unasked : (s.mshr.mshr j).requested = false → (s.mshr.mshr j).refilled = false
  clean : (s.mshr.mshr j).requested = true →
    (s.mshr.mshr j).oldDirty = false ∧ (s.mshr.mshr j).wbBusy = false

/-- Where the victim of an MSHR in use is. -/
structure VictimSlot (s : DRAMSideLLC c D) (g : MissLog c) (j : Fin c.outstanding) : Prop where
  read : g.read j = s.places j (s.readCount g j)
  dirty : (s.mshr.mshr j).oldDirty = true ∨ (s.mshr.mshr j).wbBusy = true → g.dirty j = true
  once : (s.mshr.mshr j).oldDirty = true → (s.mshr.mshr j).wbBusy = false
  busy : (s.mshr.mshr j).wbBusy = true → s.data.valid = true → s.data.req = s.victimData j

/-- The miss that an MSHR in use has. -/
def waiting (s : DRAMSideLLC c D) (j : Fin c.outstanding) : Multiset MemReqCmd :=
  if s.mshr.valid j then {⟨false, (s.mshr.mshr j).addr, (s.mshr.mshr j).tag⟩} else 0

/-- **The invariant.** -/
structure MissInv (s : DRAMSideLLC c D) (g : MissLog c) : Prop where
  counts : s.data.Counts
  sets : ∀ j k, s.mshr.valid j = true → s.mshr.valid k = true →
    (s.mshr.mshr j).addr % c.sets = (s.mshr.mshr k).addr % c.sets → j = k
  ask : ∀ j, s.mshr.valid j = true → AskSlot s g j
  victim : ∀ j, s.mshr.valid j = true → VictimSlot s g j
  /-- Memory owes nothing to an MSHR that is free. -/
  owed : ∀ j, (g.asked j).isSome = true → g.beats j < c.refillCycles → s.mshr.valid j = true
  /-- A victim in the data array belongs to an MSHR. -/
  busy : s.data.valid = true → s.data.req.isWriteback = true →
    ∃ j, s.mshr.valid j = true ∧ (s.mshr.mshr j).wbBusy = true ∧ s.data.req = s.victimData j
  conserves : g.missed = g.replayed + ∑ j, s.waiting j

theorem MissInv.of_answers (h : MissInv s g) (hok : MemoryOk (s, g) i) (hj : answers i j = true) :
    s.mshr.valid j = true ∧ (s.mshr.mshr j).requested = true ∧
      (s.mshr.mshr j).refilled = false := by
  obtain ⟨⟨k, d⟩, hr, rfl⟩ := Option.map_eq_some_iff.mp (of_decide_eq_true hj)
  obtain ⟨hasked, hlt⟩ := hok k d hr
  have hvalid := h.owed k hasked hlt
  have hslot := h.ask k hvalid
  refine ⟨hvalid, ?_, ?_⟩
  · cases hreq : (s.mshr.mshr k).requested with
    | true => rfl
    | false =>
      have hnone := hslot.asked
      rw [hreq] at hnone
      rw [hnone] at hasked
      cases hasked
  · cases hrefilled : (s.mshr.mshr k).refilled with
    | false => rfl
    | true =>
      have hbeats := hslot.beats
      rw [hrefilled, if_pos rfl] at hbeats
      exact absurd hlt (hbeats ▸ Nat.lt_irrefl _)

theorem log_of_kept (ha : s.allocTo j = none) :
    (s.nextMissLog i g).dirty j = g.dirty j ∧
      (s.nextMissLog i g).read j = g.read j ++ (s.victimRead i).toList.filter (s.inLine j) ∧
      (s.nextMissLog i g).asked j = (if s.asks i j then
        some ((s.mshr.mshr j).addr, (s.mshr.mshr j).way) else g.asked j) ∧
      (s.nextMissLog i g).beats j = if answers i j then g.beats j + 1 else g.beats j := by
  simp only [nextMissLog, ha, true_and]
  refine ⟨?_, ?_⟩
  · rw [asks]
    by_cases hreq : s.refillReq = some j <;> cases hready : i.memCmdReady <;> simp [hreq]
  · by_cases hresp : i.memResp.map (·.1) = some j <;> simp [answers, hresp]

theorem AskSlot.next_of_kept (h : AskSlot s g j) (ha : s.allocTo j = none)
    (hanswer : answers i j = true →
      (s.mshr.mshr j).requested = true ∧ (s.mshr.mshr j).refilled = false)
    (hvictim : s.victimFire = some j → (s.mshr.mshr j).oldDirty = true) :
    AskSlot (s.next i) (s.nextMissLog i g) j := by
  obtain ⟨-, -, hasked', hbeats'⟩ := log_of_kept (g := g) (i := i) ha
  have hk := missKept (i := i) ha
  have hR := c.one_lt_refillCycles
  refine ⟨?_, ?_, ?_, ?_, ?_⟩
  · rw [hasked', hk.requested, hk.addr, hk.way, h.asked]
    cases (s.mshr.mshr j).requested <;> cases s.asks i j <;> rfl
  · rw [hbeats', hk.refilled, hk.refillCount, h.beats]
    cases hans : answers i j with
    | false => rw [Bool.false_and, Bool.or_false]; rfl
    | true =>
      rw [(hanswer hans).2]
      have hlt := h.lt
      by_cases hlast : (s.mshr.mshr j).refillCount = c.refillCycles - 1
      · rw [decide_eq_true hlast]
        show (s.mshr.mshr j).refillCount + 1 = c.refillCycles
        omega
      · have hlt' : (s.mshr.mshr j).refillCount + 1 < c.refillCycles := by omega
        rw [decide_eq_false hlast]
        exact (Nat.mod_eq_of_lt hlt').symm
  · rw [hk.refillCount]
    split
    · exact Nat.mod_lt _ (by omega)
    · exact h.lt
  · rw [hk.requested, hk.refilled, Bool.or_eq_false_iff]
    rintro ⟨hreq, -⟩
    rw [h.unasked hreq]
    cases hans : answers i j with
    | false => rfl
    | true => rw [(hanswer hans).1] at hreq; cases hreq
  · rw [hk.requested, Bool.or_eq_true, hk.oldDirty, hk.wbBusy]
    intro hreq
    have hclean : (s.mshr.mshr j).oldDirty = false ∧ (s.mshr.mshr j).wbBusy = false := by
      rcases hreq with hreq | hask
      · exact h.clean hreq
      · exact ⟨(of_asks hask).2.1, (of_asks hask).2.2.1⟩
    have hno : s.victimFire ≠ some j := by
      intro hv
      rw [hvictim hv] at hclean
      cases hclean.1
    rw [hclean.1, hclean.2, decide_eq_false hno]
    exact ⟨rfl, rfl⟩

/-! ### The victim of an MSHR -/

/-- The victim of an MSHR is read out in this cycle, or could be. -/
def Leaving (s : DRAMSideLLC c D) (j : Fin c.outstanding) : Prop :=
  s.victimFire = some j ∨ (s.mshr.mshr j).wbBusy = true ∧ s.data.valid = true

theorem Leaving.served (h : s.Leaving j) (hslot : VictimSlot s g j) :
    s.served = some (s.victimData j) := by
  rcases h with hfire | ⟨hbusy, hvalid⟩
  · exact (served_of_victimFire hfire).2
  · rw [DRAMSideLLC.served, LLCData.current, if_pos hvalid, hslot.busy hbusy hvalid]

theorem Leaving.dirty (h : s.Leaving j) (hslot : VictimSlot s g j) : g.dirty j = true := by
  rcases h with hfire | ⟨hbusy, -⟩
  · exact hslot.dirty (.inl (of_writebackFire hfire).2)
  · exact hslot.dirty (.inr hbusy)

/-- A victim that is read out stays in the data array, and the MSHR knows. -/
theorem Leaving.next (h : s.Leaving j) (hslot : VictimSlot s g j) (ha : s.allocTo j = none) :
    ((s.next i).mshr.mshr j).oldDirty = false ∧ ((s.next i).mshr.mshr j).wbBusy = true := by
  have hk := missKept (i := i) ha
  rw [hk.oldDirty, hk.wbBusy]
  rcases h with hfire | ⟨hbusy, hvalid⟩
  · rw [hslot.once (of_writebackFire hfire).2, decide_eq_true hfire, Bool.not_true,
      Bool.and_false]
    exact ⟨rfl, rfl⟩
  · have hready : s.dataReady = false := by
      by_contra hready
      rw [not_valid_of_dataReady (by simpa using hready)] at hvalid
      cases hvalid
    have hclean : (s.mshr.mshr j).oldDirty = false := by
      by_contra hdirty
      rw [hslot.once (by simpa using hdirty)] at hbusy
      cases hbusy
    rw [hclean, hbusy, hready]
    exact ⟨rfl, rfl⟩

theorem victimData_next (ha : s.allocTo j = none) : (s.next i).victimData j = s.victimData j := by
  have hk := missKept (i := i) ha
  rw [victimData, victimData, MSHR.victim, MSHR.victim, hk.way, hk.addr, hk.oldTag]

theorem inLine_iff {a : LLCDataAddr c} : s.inLine j a = true ↔
    a.way = (s.mshr.mshr j).way ∧ a.set = (s.mshr.mshr j).addr % c.sets := decide_eq_true_iff

/-- The places of the line that are read for a write-back in this cycle. -/
theorem MissInv.reads_of_leaving (h : MissInv s g) (hj : s.mshr.valid j = true)
    (hleaving : s.Leaving j) : (s.victimRead i).toList.filter (s.inLine j) =
      if s.steps i then
        [⟨(s.mshr.mshr j).way, (s.mshr.mshr j).addr % c.sets, s.data.count⟩] else [] := by
  rw [victimRead_of_served (hleaving.served (h.victim j hj))]
  cases s.steps i with
  | false => rfl
  | true => exact List.filter_cons_of_pos (inLine_iff.mpr ⟨rfl, rfl⟩)

theorem MissInv.reads_of_not_leaving (h : MissInv s g) (hj : s.mshr.valid j = true)
    (hleaving : ¬ s.Leaving j) : (s.victimRead i).toList.filter (s.inLine j) = [] := by
  by_cases hwb : ∀ r, s.served = some r → r.isWriteback = false
  · rw [victimRead_eq_none hwb]
    rfl
  · obtain ⟨r, hr⟩ := not_forall.mp hwb
    obtain ⟨hr, hne⟩ := Classical.not_imp.mp hr
    have hk : ∃ k, s.mshr.valid k = true ∧ s.Leaving k ∧ r = s.victimData k := by
      have hisWb : r.isWriteback = true := by simpa using hne
      rcases victim_of_served hr hisWb with ⟨hvalid, rfl⟩ | ⟨k, hk, rfl⟩
      · obtain ⟨k, hk, hbusy, hreq⟩ := h.busy hvalid hisWb
        exact ⟨k, hk, .inr ⟨hbusy, hvalid⟩, hreq⟩
      · exact ⟨k, (of_writebackFire hk).1, .inl hk, rfl⟩
    obtain ⟨k, hk, hleavingk, rfl⟩ := hk
    rw [victimRead_of_served hr]
    cases s.steps i with
    | false => rfl
    | true =>
      refine List.filter_cons_of_neg fun hin => ?_
      -- the line is in the set of the MSHR, which has it to itself
      obtain ⟨-, hset⟩ := inLine_iff.mp hin
      exact hleaving (h.sets k j hk hj hset ▸ hleavingk)

theorem places_succ (n : ℕ) : s.places j (n + 1) = s.places j n ++
    [⟨(s.mshr.mshr j).way, (s.mshr.mshr j).addr % c.sets, n⟩] := by
  rw [places, List.range_succ, List.map_append]
  rfl

/-- **The victim of an MSHR, one cycle on.** -/
theorem MissInv.victim_next (h : MissInv s g) (hj : s.mshr.valid j = true)
    (ha : s.allocTo j = none) : VictimSlot (s.next i) (s.nextMissLog i g) j := by
  obtain ⟨hdirty', hread', -, -⟩ := log_of_kept (g := g) (i := i) ha
  have hk := missKept (i := i) ha
  have hslot := h.victim j hj
  have hR := c.one_lt_refillCycles
  obtain ⟨hvalid', hreq', hcount'⟩ := data_next (s := s) (i := i)
  have hplaces : ∀ n, (s.next i).places j n = s.places j n := by
    intro n
    rw [places, places, hk.way, hk.addr]
  by_cases hleaving : s.Leaving j
  · have hreads := h.reads_of_leaving (i := i) hj hleaving
    rw [hleaving.served hslot] at hvalid' hreq'
    have hdirty := hleaving.dirty hslot
    obtain ⟨hold, hbusy⟩ := hleaving.next (i := i) hslot ha
    have hread : g.read j = s.places j s.data.count := by
      rw [hslot.read, readCount, hdirty]
      rcases hleaving with hfire | ⟨hb, hv⟩
      · rw [(of_writebackFire hfire).2,
          h.counts.idle (not_valid_of_dataReady (served_of_victimFire hfire).1)]
        rfl
      · cases hd : (s.mshr.mshr j).oldDirty with
        | false => rw [hb, hv]; rfl
        | true => rw [hslot.once hd] at hb; cases hb
    have hlt := h.counts.lt
    refine ⟨?_, fun _ => hdirty'.trans hdirty, fun hd => ?_, fun _ _ => ?_⟩
    · rw [hread', hreads, hread, hplaces, readCount, hdirty', hdirty, hold, hbusy, hvalid', hcount']
      cases hstep : s.steps i with
      | false => simp
      | true =>
        by_cases hlast : s.data.count = c.refillCycles - 1
        · have hvalid : s.data.valid = true := by
            by_contra hv
            have hzero := h.counts.idle (by simpa using hv)
            omega
          rw [hlast, hvalid, decide_eq_true rfl]
          show s.places j (c.refillCycles - 1) ++ [_] = s.places j c.refillCycles
          rw [← places_succ, Nat.sub_add_cancel hR.le]
        · have hlt' : s.data.count + 1 < c.refillCycles := by omega
          rw [Nat.mod_eq_of_lt hlt', decide_eq_false hlast, Bool.and_false]
          exact (places_succ _).symm
    · rw [hold] at hd
      cases hd
    · rw [hreq', victimData_next ha]
      rfl
  · have hreads := h.reads_of_not_leaving (i := i) hj hleaving
    have hno : s.victimFire ≠ some j := fun hfire => hleaving (.inl hfire)
    have hold := hk.oldDirty
    have hbusy := hk.wbBusy
    rw [decide_eq_false hno] at hold hbusy
    rw [Bool.not_false, Bool.and_true] at hold
    -- a victim that was handed over is out when the data array is idle
    have hgone : (s.mshr.mshr j).wbBusy = true → s.data.valid = false := by
      intro hb
      by_contra hv
      exact hleaving (.inr ⟨hb, by simpa using hv⟩)
    have hidle : ((s.next i).mshr.mshr j).wbBusy = true → (s.next i).data.valid = false := by
      rw [hbusy]
      cases hb : (s.mshr.mshr j).wbBusy with
      | false => nofun
      | true =>
        intro hready
        rw [hvalid', served_eq_none (hgone hb) (by simpa using hready)]
        rfl
    have hcountj : (s.next i).readCount (s.nextMissLog i g) j = s.readCount g j := by
      rw [readCount, readCount, hdirty', hold]
      split
      · rfl
      · rw [if_neg, if_neg]
        · rintro hb
          obtain ⟨hb, hv⟩ := Bool.and_eq_true_iff.mp hb
          rw [hgone hb] at hv
          cases hv
        · intro hb
          obtain ⟨hb, hv⟩ := Bool.and_eq_true_iff.mp hb
          rw [hidle hb] at hv
          cases hv
    refine ⟨?_, ?_, ?_, ?_⟩
    · rw [hread', hreads, List.append_nil, hcountj, hplaces]
      exact hslot.read
    · rw [hold, hbusy, hdirty']
      rintro (hd | hb)
      · exact hslot.dirty (.inl hd)
      · split at hb
        · exact hslot.dirty (.inr ‹_›)
        · cases hb
    · rw [hold, hbusy]
      intro hd
      rw [hslot.once hd]
      rfl
    · intro hb hv
      rw [hidle hb] at hv
      cases hv

/-! ### A new miss -/

theorem MissInv.answers_of_alloc (h : MissInv s g) (hok : MemoryOk (s, g) i)
    (ha : s.allocTo j = some a) : answers i j = false := by
  by_contra hans
  have hvalid := (h.of_answers hok (by simpa using hans)).1
  rw [allocTo_of_valid hvalid] at ha
  cases ha

theorem log_of_alloc (ha : s.allocTo j = some a) :
    (s.nextMissLog i g).dirty j = (a.2.2.dirty && a.2.2.valid) ∧
      (s.nextMissLog i g).read j = [] ∧ (s.nextMissLog i g).asked j = none ∧
      (s.nextMissLog i g).beats j = 0 := by
  simp only [nextMissLog, ha, and_self]

theorem AskSlot.of_alloc (ha : s.allocTo j = some a)
    (hans : answers i j = false) : AskSlot (s.next i) (s.nextMissLog i g) j := by
  obtain ⟨-, -, hasked, hbeats⟩ := log_of_alloc (g := g) (i := i) ha
  have hm := mshr_of_alloc ha hans
  have hR := c.one_lt_refillCycles
  constructor
  · rw [hasked, hm]
    rfl
  · rw [hbeats, hm]
    rfl
  · rw [hm]
    exact Nat.zero_lt_of_lt hR
  · intro _
    rw [hm]
    rfl
  · rw [hm]
    nofun

theorem VictimSlot.of_alloc (ha : s.allocTo j = some a)
    (hans : answers i j = false) : VictimSlot (s.next i) (s.nextMissLog i g) j := by
  obtain ⟨hdirty, hread, -, -⟩ := log_of_alloc (g := g) (i := i) ha
  have hm := mshr_of_alloc ha hans
  replace hdirty : (s.nextMissLog i g).dirty j = ((s.next i).mshr.mshr j).oldDirty := by
    rw [hdirty, hm]
    rfl
  have hbusy : ((s.next i).mshr.mshr j).wbBusy = false := by rw [hm]; rfl
  constructor
  · have hcount : (s.next i).readCount (s.nextMissLog i g) j = 0 := by
      rw [readCount, hdirty, Bool.not_or_self, if_pos rfl]
    rw [hcount, hread]
    rfl
  · rw [hdirty, hbusy]
    rintro (hold | hb)
    · exact hold
    · cases hb
  · exact fun _ => hbusy
  · rw [hbusy]
    nofun

/-! ### Replays -/

/-- The data array takes a read from an MSHR exactly when the tag array takes its line. -/
theorem replay_eq : s.replay = s.tagFire.map fun j =>
    ⟨⟨false, (s.mshr.mshr j).addr, (s.mshr.mshr j).tag⟩, (s.mshr.mshr j).way, false⟩ := by
  rw [replay, tagFire, LLCMSHRFile.tagFire, mshrData, LLCMSHRFile.data]
  cases s.dataReady with
  | false => rfl
  | true =>
    cases s.mshr.replayId with
    | some j => cases s.tagReady <;> rfl
    | none => cases s.mshr.writebackId <;> cases s.tagReady <;> rfl

theorem MissInv.of_tagFire (h : MissInv s g) (htag : s.tagFire = some j) :
    s.mshr.valid j = true ∧ (s.mshr.mshr j).refilled = true ∧
      (s.mshr.mshr j).requested = true ∧ (s.mshr.mshr j).oldDirty = false ∧
      (s.mshr.mshr j).wbBusy = false := by
  obtain ⟨hvalid, hrefilled⟩ := LLCMSHRFile.of_tagFire htag
  have hslot := h.ask j hvalid
  have hreq : (s.mshr.mshr j).requested = true := by
    by_contra hreq
    rw [hslot.unasked (by simpa using hreq)] at hrefilled
    cases hrefilled
  exact ⟨hvalid, hrefilled, hreq, hslot.clean hreq⟩

theorem MissInv.waiting_next (h : MissInv s g) (hok : MemoryOk (s, g) i)
    (j : Fin c.outstanding) : (s.next i).waiting j +
      (if s.tagFire = some j then {⟨false, (s.mshr.mshr j).addr, (s.mshr.mshr j).tag⟩} else 0) =
    s.waiting j + ((s.allocTo j).map (·.1)).toList := by
  rcases ha : s.allocTo j with _ | a
  · have hk := missKept (i := i) ha
    rw [waiting, waiting, hk.addr, hk.tag]
    have hvalid := valid_next_of_kept (i := i) ha
    by_cases htag : s.tagFire = some j
    · rw [if_pos htag, if_pos (h.of_tagFire htag).1, if_neg fun hv => (hvalid.mp hv).1 htag,
        zero_add]
      exact (add_zero _).symm
    · rw [if_neg htag, if_congr (hvalid.trans (and_iff_right htag)) rfl rfl]
      rfl
  · have hm := mshr_of_alloc ha (h.answers_of_alloc hok ha)
    obtain ⟨hfree, hmiss⟩ := allocTo_eq_some.mp ha
    have hidle := valid_of_freeId hfree
    have htag : s.tagFire ≠ some j := by
      intro htag
      rw [(h.of_tagFire htag).1] at hidle
      cases hidle
    have hrw : a.1.rw = false := by
      rw [missAlloc] at hmiss
      split at hmiss
      · rename_i hcond
        simp only [Bool.and_eq_true, Bool.not_eq_true'] at hcond
        cases hmiss
        exact hcond.1.2
      · cases hmiss
    rw [waiting, waiting, if_pos (valid_next.mpr ⟨htag, .inl ⟨a, ha⟩⟩), if_neg htag, hidle, hm,
      add_zero]
    show {(⟨false, a.1.addr, a.1.tag⟩ : MemReqCmd)} = 0 + _
    rw [zero_add, ← hrw]
    rfl

theorem sum_allocTo : ∑ j, (((s.allocTo j).map (·.1)).toList : Multiset MemReqCmd) =
    (s.missAlloc.map (·.1)).toList := by
  rcases ha : s.missAlloc with _ | a
  · refine Finset.sum_eq_zero fun j _ => ?_
    rw [allocTo, ha, ite_self]
    rfl
  · obtain ⟨-, ⟨j, hj⟩, -⟩ := of_missAlloc ha
    rw [Finset.sum_eq_single j (fun k _ hk => ?_) fun hk => absurd (Finset.mem_univ j) hk]
    · rw [allocTo, if_pos hj, ha]
    · have hne : s.mshr.freeId ≠ some k := fun hfree => hk (Option.some.inj (hfree.symm.trans hj))
      rw [allocTo, if_neg hne]
      rfl

theorem sum_tagFire : (∑ j, if s.tagFire = some j then
      ({⟨false, (s.mshr.mshr j).addr, (s.mshr.mshr j).tag⟩} : Multiset MemReqCmd) else 0) =
    (s.replay.map (·.toMemReqCmd)).toList := by
  rw [replay_eq]
  rcases s.tagFire with _ | j
  · exact Finset.sum_eq_zero fun j _ => if_neg (by simp)
  · simp only [Option.some.injEq, Finset.sum_ite_eq, Finset.mem_univ, if_true]
    rfl

/-! ### Every run -/

section

variable (h : MissInv s g)
include h

theorem MissInv.owed_next (hasked : ((s.nextMissLog i g).asked j).isSome = true)
    (hlt : (s.nextMissLog i g).beats j < c.refillCycles) : (s.next i).mshr.valid j = true := by
  rcases ha : s.allocTo j with _ | a
  · obtain ⟨-, -, hasked', hbeats'⟩ := log_of_kept (g := g) (i := i) ha
    refine (valid_next_of_kept ha).mpr ⟨fun htag => ?_, ?_⟩
    · -- an MSHR that is replayed has had all of its beats
      obtain ⟨hvalid, hrefilled, -⟩ := h.of_tagFire htag
      have hbeats := (h.ask j hvalid).beats
      rw [hrefilled, if_pos rfl] at hbeats
      rw [hbeats', hbeats] at hlt
      split at hlt <;> omega
    · by_cases hask : s.asks i j = true
      · exact (of_asks hask).1
      · rw [hasked', if_neg hask] at hasked
        refine h.owed j hasked (lt_of_le_of_lt ?_ hlt)
        rw [hbeats']
        split
        · exact Nat.le_succ _
        · exact le_rfl
  · rw [(log_of_alloc ha).2.2.1] at hasked
    cases hasked

theorem MissInv.busy_next (hvalid : (s.next i).data.valid = true)
    (hwb : (s.next i).data.req.isWriteback = true) :
    ∃ j, (s.next i).mshr.valid j = true ∧ ((s.next i).mshr.mshr j).wbBusy = true ∧
      (s.next i).data.req = (s.next i).victimData j := by
  obtain ⟨hvalid', hreq', -⟩ := data_next (s := s) (i := i)
  rcases hserved : s.served with _ | r
  · rw [hvalid', hserved] at hvalid
    cases hvalid
  · rw [hserved] at hreq'
    rw [hreq'] at hwb
    have hj : ∃ j, s.mshr.valid j = true ∧ s.Leaving j ∧ r = s.victimData j := by
      rcases victim_of_served hserved hwb with ⟨hv, rfl⟩ | ⟨j, hfire, rfl⟩
      · obtain ⟨j, hj, hbusy, hreq⟩ := h.busy hv hwb
        exact ⟨j, hj, .inr ⟨hbusy, hv⟩, hreq⟩
      · exact ⟨j, (of_writebackFire hfire).1, .inl hfire, rfl⟩
    obtain ⟨j, hj, hleaving, rfl⟩ := hj
    have ha := allocTo_of_valid hj
    refine ⟨j, (valid_next_of_kept ha).mpr ⟨fun htag => ?_, hj⟩,
      (hleaving.next (h.victim j hj) ha).2, hreq'.trans (victimData_next ha).symm⟩
    -- an MSHR that is replayed has no victim any more
    obtain ⟨-, -, -, hclean, hidle⟩ := h.of_tagFire htag
    rcases hleaving with hfire | ⟨hbusy, -⟩
    · rw [(of_writebackFire hfire).2] at hclean
      cases hclean
    · rw [hbusy] at hidle
      cases hidle

theorem MissInv.conserves_next (hok : MemoryOk (s, g) i) :
    (s.nextMissLog i g).missed = (s.nextMissLog i g).replayed + ∑ j, (s.next i).waiting j := by
  have hsum := Finset.sum_congr rfl fun j (_ : j ∈ Finset.univ) => h.waiting_next hok j
  rw [Finset.sum_add_distrib, Finset.sum_add_distrib, sum_tagFire, sum_allocTo] at hsum
  calc g.missed + (s.missAlloc.map (·.1)).toList
      = g.replayed + (∑ j, s.waiting j + (s.missAlloc.map (·.1)).toList) := by
        rw [h.conserves, add_assoc]
    _ = g.replayed + (∑ j, (s.next i).waiting j + (s.replay.map (·.toMemReqCmd)).toList) := by
        rw [hsum]
    _ = g.replayed + (s.replay.map (·.toMemReqCmd)).toList + ∑ j, (s.next i).waiting j := by
        rw [add_assoc, add_comm (∑ j, (s.next i).waiting j)]

/-- **One cycle.** -/
theorem MissInv.next (hok : MemoryOk (s, g) i) :
    MissInv (s.next i) (s.nextMissLog i g) where
  counts := h.counts.next rfl
  sets _ _ := sets_next (fun _ _ => h.answers_of_alloc hok) h.sets
  ask j hj := by
    rcases of_valid_next hj with ⟨a, ha⟩ | ⟨hvalid, ha, -⟩
    · exact .of_alloc ha (h.answers_of_alloc hok ha)
    · exact (h.ask j hvalid).next_of_kept ha (fun hans => (h.of_answers hok hans).2)
        fun hfire => (of_writebackFire hfire).2
  victim j hj := by
    rcases of_valid_next hj with ⟨a, ha⟩ | ⟨hvalid, ha, -⟩
    · exact .of_alloc ha (h.answers_of_alloc hok ha)
    · exact h.victim_next hvalid ha
  owed _ := h.owed_next
  busy := h.busy_next
  conserves := h.conserves_next hok

end

theorem MissInv.of_isReset (h : s.IsReset) : MissInv s .empty where
  counts := ⟨by rw [h.dataCount]; exact Nat.zero_lt_of_lt c.one_lt_refillCycles,
    fun _ => h.dataCount⟩
  sets j _ hj := absurd (hj.symm.trans (h.mshr j)) (by decide)
  ask j hj := absurd (hj.symm.trans (h.mshr j)) (by decide)
  victim j hj := absurd (hj.symm.trans (h.mshr j)) (by decide)
  owed _ hasked := nomatch hasked
  busy hvalid := absurd (hvalid.symm.trans h.dataValid) (by decide)
  conserves := by
    have hwaiting : ∀ j, s.waiting j = 0 := fun j => by rw [waiting, h.mshr j]; rfl
    simp only [hwaiting, Finset.sum_const_zero]
    rfl

theorem reachable_missInv (h : (missMachine c D).Reachable (s, g)) : MissInv s g := by
  refine Machine.invariant (I := fun x : DRAMSideLLC c D × MissLog c => MissInv x.1 x.2) ?_ ?_
    (s, g) h
  · rintro ⟨s, g⟩ ⟨hreset, rfl⟩
    exact .of_isReset hreset
  · rintro ⟨s, g⟩ i ⟨s', g'⟩ _ h ⟨hok, rfl, rfl⟩
    exact h.next hok

/-- A beat that comes back is written into the line of its MSHR. -/
theorem arrayIn_of_memResp {d : D} (h : i.memResp = some (j, d)) : s.arrayIn i =
    some (.write ⟨(s.mshr.mshr j).way, (s.mshr.mshr j).addr % c.sets, s.data.refillCount⟩ d) := by
  rw [arrayIn, refillBeat, h]
  rfl

/-- **Miss handling is exact.** While memory keeps its promise:

* no two MSHRs work on one set
* a beat that comes back is written into the way that memory was asked to fill; the victim, if it
  was dirty, has been read out of that place by then, beat for beat. The place within the line is
  `refillCount`, which all MSHRs share: two lines whose beats come interleaved get into the right
  ways, but not into the right order
* every miss has been replayed, or waits in one MSHR
* a miss is replayed once all beats of its line have come, in the way they were written to
* an MSHR that has its line is replayed as soon as the tag array and the data array are free -/
theorem miss_exact (c : LLCConf) (D : Type) :
    ∀ s g, (missMachine c D).Reachable (s, g) →
      (∀ j k, s.mshr.valid j = true → s.mshr.valid k = true →
        (s.mshr.mshr j).addr % c.sets = (s.mshr.mshr k).addr % c.sets → j = k) ∧
      (∀ i, MemoryOk (s, g) i → ∀ j d, i.memResp = some (j, d) →
        ∃ addr way, g.asked j = some (addr, way) ∧
          s.arrayIn i = some (.write ⟨way, addr % c.sets, s.data.refillCount⟩ d) ∧
          (g.dirty j = true →
            g.read j = (List.range c.refillCycles).map (⟨way, addr % c.sets, ·⟩))) ∧
      g.missed = g.replayed + ∑ j, s.waiting j ∧
      (∀ j, s.tagFire = some j → g.beats j = c.refillCycles ∧
        ∃ addr way, g.asked j = some (addr, way) ∧
          s.replay = some ⟨⟨false, addr, (s.mshr.mshr j).tag⟩, way, false⟩) ∧
      (∀ j, s.mshr.valid j = true → (s.mshr.mshr j).refilled = true → s.tagReady = true →
        s.data.valid = false → s.tagFire.isSome = true) := by
  intro s g hreach
  have h := reachable_missInv hreach
  refine ⟨h.sets, ?_, h.conserves, ?_, ?_⟩
  · intro i hok j d hresp
    obtain ⟨hvalid, hreq, -⟩ := h.of_answers hok (decide_eq_true (by rw [hresp]; rfl))
    obtain ⟨hclean, hidle⟩ := (h.ask j hvalid).clean hreq
    refine ⟨(s.mshr.mshr j).addr, (s.mshr.mshr j).way, ?_, arrayIn_of_memResp hresp,
      fun hdirty => ?_⟩
    · rw [(h.ask j hvalid).asked, if_pos hreq]
    · rw [(h.victim j hvalid).read, readCount, hdirty, hclean, hidle]
      rfl
  · intro j htag
    obtain ⟨hvalid, hrefilled, hreq, -⟩ := h.of_tagFire htag
    refine ⟨?_, (s.mshr.mshr j).addr, (s.mshr.mshr j).way, ?_, ?_⟩
    · rw [(h.ask j hvalid).beats, if_pos hrefilled]
    · rw [(h.ask j hvalid).asked, if_pos hreq]
    · rw [replay_eq, htag]
      rfl
  · intro j hvalid hrefilled htag hidle
    obtain ⟨k, hk⟩ : ∃ k, s.mshr.replayId = some k := by
      refine Option.ne_none_iff_exists'.mp fun hnone => ?_
      have hnot := priorityEncoder_eq_none.mp hnone j
      rw [hvalid, hrefilled] at hnot
      cases hnot
    have hready : s.dataReady = true := by
      rw [dataReady, dataReq, mshrData, LLCMSHRFile.data, hk, htag, LLCData.reqReady, hidle]
      rfl
    rw [DRAMSideLLC.tagFire, LLCMSHRFile.tagFire, hready, htag, hk]
    rfl

instance (x : DRAMSideLLC c D × MissLog c) (i : LLCInput c D) : Decidable (MemoryOk x i) :=
  decidable_of_iff (∀ r ∈ i.memResp,
    (x.2.asked r.1).isSome = true ∧ x.2.beats r.1 < c.refillCycles)
    ⟨fun h j d hr => h (j, d) hr, fun h r hr => h r.1 r.2 hr⟩

/-- A cycle in which everything outside is ready. -/
def ready : LLCInput .small Bool := ⟨none, none, true, true, true, none⟩

def send (rw : Bool) (addr : ℕ) : LLCInput .small Bool :=
  { ready with reqCmd := some ⟨rw, addr, 0⟩ }

def second : Fin LLCConf.small.outstanding := (1 : Fin 2)

/-- A beat for the second MSHR. -/
def answer : LLCInput .small Bool := { ready with memResp := some (second, true) }

/-- A write, with two beats. -/
def writeLine (addr : ℕ) : List (LLCInput .small Bool) :=
  [send true addr, ready, { ready with reqData := some true }, { ready with reqData := some true }]

/-- The lines `1` and `0` are missed, and memory answers for line `0` only. It is written, and
missed again for line `2`, which is in its set. -/
def dirtyMiss : List (LLCInput .small Bool) :=
  [ready, ready, send false 1, ready, ready, send false 0, ready, ready, ready, answer, answer,
    ready] ++ writeLine 0 ++ [send false 2] ++ List.replicate 6 ready

def afterMiss (inputs : List (LLCInput .small Bool)) : DRAMSideLLC .small Bool × MissLog .small :=
  Machine.cycles next nextMissLog inputs (reset false, .empty)

/-- When the first beat of line `2` comes, line `0` has been read out of the places it goes to;
after the second one the read is repeated, and two of the three misses are done. -/
theorem miss_exact_dirty :
    (afterMiss dirtyMiss).1.arrayIn answer = some (.write ⟨0, 0, 0⟩ true) ∧
    (afterMiss dirtyMiss).2.read second = [⟨0, 0, 0⟩, ⟨0, 0, 1⟩] ∧
    (afterMiss (dirtyMiss ++ [answer, answer])).1.tagFire = some second ∧
    (afterMiss (dirtyMiss ++ [answer, answer])).1.replay =
      some ⟨⟨false, 2, 0⟩, 0, false⟩ := by
  have hstart : (missMachine .small Bool).Reachable (reset false, .empty) :=
    .init ⟨isReset_reset false, rfl⟩
  have hmiss : (missMachine .small Bool).Reachable (afterMiss dirtyMiss) :=
    Machine.reachable_restrict_cycles hstart dirtyMiss (by decide +kernel)
  have hdone : (missMachine .small Bool).Reachable (afterMiss (dirtyMiss ++ [answer, answer])) :=
    Machine.reachable_restrict_cycles hstart _ (by decide +kernel)
  have htag : (afterMiss (dirtyMiss ++ [answer, answer])).1.tagFire = some second := by
    decide +kernel
  obtain ⟨-, hbeat, -⟩ :=
    miss_exact .small Bool (afterMiss dirtyMiss).1 (afterMiss dirtyMiss).2 hmiss
  obtain ⟨-, -, -, hreplay, -⟩ := miss_exact .small Bool
    (afterMiss (dirtyMiss ++ [answer, answer])).1 (afterMiss (dirtyMiss ++ [answer, answer])).2
    hdone
  obtain ⟨addr, way, hasked, hwrite, hread⟩ := hbeat answer (by decide +kernel) second true rfl
  obtain ⟨-, addr', way', hasked', hagain⟩ := hreplay second htag
  have hline : (afterMiss dirtyMiss).2.asked second = some (2, 0) := by decide +kernel
  have hline' : (afterMiss (dirtyMiss ++ [answer, answer])).2.asked second = some (2, 0) := by
    decide +kernel
  obtain ⟨rfl, rfl⟩ := Prod.mk.inj (Option.some.inj (hasked.symm.trans hline))
  obtain ⟨rfl, rfl⟩ := Prod.mk.inj (Option.some.inj (hasked'.symm.trans hline'))
  have hcount : (afterMiss dirtyMiss).1.data.refillCount = 0 := by decide +kernel
  have htagged : ((afterMiss (dirtyMiss ++ [answer, answer])).1.mshr.mshr second).tag = 0 := by
    decide +kernel
  have hplaces : (List.range LLCConf.small.refillCycles).map
      (⟨0, 2 % LLCConf.small.sets, ·⟩) = [(⟨0, 0, 0⟩ : LLCDataAddr .small), ⟨0, 0, 1⟩] := by
    decide
  rw [hcount] at hwrite
  rw [htagged] at hagain
  exact ⟨hwrite, (hread (by decide +kernel)).trans hplaces, htag, hagain⟩

end DRAMSideLLC

end RiscvSoc
