import RiscvSoc.Lib.Bits
import RiscvSoc.Lib.Encoder
import RiscvSoc.Uncore.LLC

/-!
# The writeback unit

`LLCWriteback` from `uncore/src/main/scala/llc.scala`, for any number of requesters and of beats. A
request becomes a write command and `refill_cycles` beats, which go to memory on two ports and may
be done in either order. `LLC.lean` has the same unit inside the cache, with its two requesters and
its power of two.

## Beats that get lost

The unit is ready for a beat of the requester it serves whenever memory is, also when the beats of
the request are all sent and only the command is waiting, or is going out. It does not show such a
beat to memory. The requester believes it gone.

The counter is as wide as an index below `refill_cycles` and is never cleared. If `refill_cycles` is
one or not a power of two it is not at zero when a request is over, and the next request gets a
different number of beats.

`Clear` says that neither happens.
-/

namespace RiscvSoc

/-- The registers of `LLCWriteback`, for `R` requesters with addresses in `A`. -/
structure Writeback (R : ℕ) (A : Type) where
  valid : Bool
  who : Fin R
  addr : A
  cmdSent : Bool
  dataSent : Bool
  count : ℕ

namespace Writeback

variable {R : ℕ} {A D : Type}

/-- The inputs of a cycle. -/
structure In (R : ℕ) (A D : Type) where
  req : Fin R → Option A
  data : Fin R → Option D
  memCmdReady : Bool
  memDataReady : Bool

section Circuit

variable (r : ℕ) (s : Writeback R A) (i : In R A D)

/-- `io.req(j).ready`. -/
def reqReady (j : Fin R) : Bool := !s.valid && decide (∀ k < j, (i.req k).isNone)

/-- `io.data(j).ready`. -/
def dataReady (j : Fin R) : Bool := s.valid && decide (s.who = j) && i.memDataReady

/-- `io.mem.req_cmd`, always a write. -/
def memCmd : Option A := if s.valid && !s.cmdSent then some s.addr else none

/-- `io.mem.req_data`. -/
def memData : Option D := if s.valid && !s.dataSent then i.data s.who else none

/-- `nextWho`, when there is a request, and its address. -/
def nextReq : Option (Fin R × A) :=
  (priorityEncoder fun j => (i.req j).isSome).bind fun j => (i.req j).map fun a => (j, a)

def cmdFire : Bool := s.memCmd.isSome && i.memCmdReady

def dataFire : Bool := (s.memData i).isSome && i.memDataReady

def next : Writeback R A :=
  let s₁ :=
    match s.valid, nextReq i with
    | false, some (who, addr) =>
      { s with valid := true, cmdSent := false, dataSent := false, who := who, addr := addr }
    | _, _ => s
  let s₂ :=
    if s.dataFire i then { s₁ with count := (s.count + 1) % 2 ^ Bits.log2Up r } else s₁
  let s₃ :=
    if s.dataFire i && decide (s.count = r - 1) then
      { s₂ with dataSent := true, valid := if s.cmdSent then false else s₂.valid }
    else s₂
  let s₄ := if s.cmdFire i then { s₃ with cmdSent := true } else s₃
  if s.valid && s.cmdSent && s.dataSent then { s₄ with valid := false } else s₄

end Circuit

/-! ### What becomes of a request -/

/-- A request, the commands and beats sent to memory while it was served, and the beats taken from
requesters. -/
structure Entry (R : ℕ) (A D : Type) where
  who : Fin R
  addr : A
  cmds : List A
  taken : List (Fin R × D)
  sent : List D

namespace Entry

variable (r : ℕ) (e : Entry R A D)

/-- The beats taken are those of the requester, and they were sent on. -/
def Kept : Prop := e.taken = e.sent.map fun d => (e.who, d)

/-- One command, and all the beats. -/
structure Done : Prop where
  cmds : e.cmds = [e.addr]
  length : e.sent.length = r
  kept : e.Kept

/-- At most one command, and some of the beats. -/
structure Begun : Prop where
  cmds : e.cmds = [] ∨ e.cmds = [e.addr]
  length : e.sent.length ≤ r
  kept : e.Kept

end Entry

section Record

variable (r : ℕ) (s : Writeback R A) (i : In R A D)

/-- The requests that are taken. -/
def accepted : List (Fin R × A) :=
  (List.finRange R).filterMap fun j =>
    if s.reqReady i j then (i.req j).map fun a => (j, a) else none

/-- The beats that are taken. -/
def taken : List (Fin R × D) :=
  (List.finRange R).filterMap fun j =>
    if s.dataReady i j then (i.data j).map fun d => (j, d) else none

/-- The entries after a cycle, the latest first. Nothing is taken or sent while no request is
served, so what is belongs to the latest. -/
def record (h : List (Entry R A D)) : List (Entry R A D) :=
  ((s.accepted i).map fun q => ⟨q.1, q.2, [], [], []⟩) ++
    h.modifyHead fun e =>
      { e with
        cmds := e.cmds ++ if i.memCmdReady then s.memCmd.toList else []
        taken := e.taken ++ s.taken i
        sent := e.sent ++ if i.memDataReady then (s.memData i).toList else [] }

/-- The unit from reset on. -/
def machine (R : ℕ) (A D : Type) (r : ℕ) :
    Machine (Writeback R A × List (Entry R A D)) (In R A D) :=
  (Machine.clocked (fun s : Writeback R A => s.valid = false ∧ s.count = 0) (next r)).observe []
    record

/-- All requests but the one being served are done, and that one has begun. -/
def Whole (x : Writeback R A × List (Entry R A D)) : Prop :=
  match x.1.valid, x.2 with
  | true, e :: es => e.Begun r ∧ ∀ e ∈ es, e.Done r
  | true, [] => False
  | false, es => ∀ e ∈ es, e.Done r

/-- No beat is taken when the beats of the request are all sent. -/
def Keeps : Prop :=
  s.valid = true → s.dataSent = true → (i.data s.who).isSome = true → i.memDataReady = false

/-- A request finds the counter at zero, and no beat is lost. -/
def Clear : Prop := (s.valid = false → (nextReq i).isSome = true → s.count = 0) ∧ s.Keeps i

end Record

/-! ### What is taken in a cycle -/

section Ports

variable {r : ℕ} {s : Writeback R A} {i : In R A D}

theorem accepted_of_busy (hv : s.valid = true) : s.accepted i = [] := by
  refine List.filterMap_eq_nil_iff.2 fun j _ => ?_
  rw [reqReady, hv, Bool.not_true, Bool.false_and, if_neg (by simp)]

theorem nextReq_eq_none : nextReq i = none ↔ ∀ j, i.req j = none := by
  rw [nextReq]
  constructor
  · intro h j
    cases hp : priorityEncoder fun j => (i.req j).isSome with
    | none => simpa using priorityEncoder_eq_none.1 hp j
    | some k =>
      have hk := priorityEncoder_some hp
      rw [hp, Option.bind_some, Option.map_eq_none_iff] at h
      simp [h] at hk
  · intro h
    rw [priorityEncoder_eq_none.2 fun j => by rw [h j]; rfl]
    rfl

theorem accepted_of_idle (hv : s.valid = false) : s.accepted i = (nextReq i).toList := by
  cases hp : priorityEncoder fun j => (i.req j).isSome with
  | none =>
    have hnone := priorityEncoder_eq_none.1 hp
    simp only [Option.isSome_eq_false_iff, Option.isNone_iff_eq_none] at hnone
    rw [nextReq_eq_none.2 hnone]
    exact List.filterMap_eq_nil_iff.2 fun j _ => by rw [hnone j]; simp
  | some k =>
    obtain ⟨hk, hbelow⟩ := priorityEncoder_eq_some.1 hp
    have hready (j : Fin R) : s.reqReady i j = decide (∀ l < j, (i.req l).isNone) := by
      rw [reqReady, hv, Bool.not_false, Bool.true_and]
    rw [accepted, filterMap_finRange_of_unique (j := k), nextReq, hp]
    · rw [hready, decide_eq_true fun l hl => by simpa using hbelow l hl, if_pos rfl]
      rfl
    · intro j hj
      rcases lt_or_gt_of_ne hj with hlt | hgt
      · have hnone : i.req j = none := by simpa using hbelow j hlt
        rw [hnone]
        simp
      · rw [hready, decide_eq_false, if_neg (by simp)]
        intro h
        have hk' := h k hgt
        simp only [Option.isNone_iff_eq_none] at hk'
        rw [hk'] at hk
        cases hk

/-- Beats are taken of the requester that is served, whenever memory is ready for one. -/
theorem taken_of_busy (hv : s.valid = true) : s.taken i =
    if i.memDataReady then ((i.data s.who).map fun d => (s.who, d)).toList else [] := by
  have hready (j : Fin R) : s.dataReady i j = (decide (s.who = j) && i.memDataReady) := by
    rw [dataReady, hv, Bool.true_and]
  rw [taken, filterMap_finRange_of_unique (j := s.who), hready, decide_eq_true rfl, Bool.true_and]
  · split <;> rfl
  · intro j hj
    rw [hready, decide_eq_false (Ne.symm hj), Bool.false_and, if_neg (by simp)]

theorem record_of_idle (hv : s.valid = false) (h : List (Entry R A D)) :
    s.record i h = ((nextReq i).toList.map fun q => ⟨q.1, q.2, [], [], []⟩) ++ h := by
  have htaken : s.taken i = [] := List.filterMap_eq_nil_iff.2 fun j _ => by
    rw [dataReady, hv, Bool.false_and, Bool.false_and, if_neg (by simp)]
  rw [record, accepted_of_idle hv, htaken]
  cases h with
  | nil => rfl
  | cons e es => simp [memCmd, memData, hv]

end Ports

/-! ### One cycle -/

section Step

variable {r : ℕ} {s : Writeback R A} {i : In R A D}

theorem next_of_busy (hv : s.valid = true) : s.next r i =
    { s with
      valid := !(s.cmdSent && (s.dataSent || s.dataFire i && decide (s.count = r - 1)))
      cmdSent := s.cmdSent || i.memCmdReady
      dataSent := s.dataSent || s.dataFire i && decide (s.count = r - 1)
      count := if s.dataFire i then (s.count + 1) % 2 ^ Bits.log2Up r else s.count } := by
  obtain ⟨valid, who, addr, cmdSent, dataSent, count⟩ := s
  obtain rfl : valid = true := hv
  rw [next]
  cases hd : dataFire ⟨true, who, addr, cmdSent, dataSent, count⟩ i <;> cases cmdSent <;>
    cases dataSent <;> cases hr : i.memCmdReady <;>
    cases hl : decide (count = r - 1) <;> simp_all [cmdFire, memCmd]

theorem next_of_idle (hv : s.valid = false) : s.next r i =
    match nextReq i with
    | some (who, addr) =>
      { s with valid := true, cmdSent := false, dataSent := false, who := who, addr := addr }
    | none => s := by
  have hd : s.dataFire i = false := by simp [dataFire, memData, hv]
  have hc : s.cmdFire i = false := by simp [cmdFire, memCmd, hv]
  rw [next, hv, hd, hc]
  cases nextReq i <;> rfl

/-- The request being served, as the registers have it. -/
structure Busy (r : ℕ) (s : Writeback R A) (e : Entry R A D) : Prop where
  who : e.who = s.who
  addr : e.addr = s.addr
  cmds : e.cmds = if s.cmdSent then [s.addr] else []
  kept : e.Kept
  length : if s.dataSent then e.sent.length = r else e.sent.length = s.count ∧ s.count < r

/-- The registers and the entries agree. -/
def Inv (r : ℕ) (x : Writeback R A × List (Entry R A D)) : Prop :=
  (x.1.valid = true → ∃ e es, x.2 = e :: es ∧ Busy r x.1 e ∧ ∀ e' ∈ es, e'.Done r) ∧
    (x.1.valid = false → ∀ e ∈ x.2, e.Done r)

/-- The beats sent in a cycle. -/
def sentNow (s : Writeback R A) (i : In R A D) : List D :=
  if i.memDataReady then (s.memData i).toList else []

theorem length_sentNow : (s.sentNow i).length = if s.dataFire i then 1 else 0 := by
  rw [sentNow, dataFire]
  cases i.memDataReady <;> cases s.memData i <;> rfl

theorem taken_of_clear (hv : s.valid = true) (hc : Clear s i) :
    s.taken i = (s.sentNow i).map fun d => (s.who, d) := by
  rw [taken_of_busy hv, sentNow, memData, hv]
  cases hready : i.memDataReady with
  | false => rfl
  | true =>
    cases hd : s.dataSent with
    | false => cases i.data s.who <;> rfl
    | true =>
      have hnone : i.data s.who = none := by
        rw [← Option.not_isSome_iff_eq_none]
        intro hsome
        rw [hc.2 hv hd hsome] at hready
        cases hready
      rw [hnone]
      rfl

variable {h : List (Entry R A D)}

theorem inv_of_idle (hr : 0 < r) (hI : Inv r (s, h)) (hc : Clear s i)
    (hv : s.valid = false) : Inv r (s.next r i, s.record i h) := by
  have hdone : ∀ e ∈ h, e.Done r := hI.2 hv
  rw [next_of_idle hv, record_of_idle hv]
  cases hq : nextReq i with
  | none => exact ⟨fun h => absurd (hv.symm.trans h) Bool.false_ne_true, fun _ => hdone⟩
  | some q =>
    have hcount : s.count = 0 := hc.1 hv (by rw [hq]; rfl)
    obtain ⟨who, addr⟩ := q
    refine ⟨fun _ => ⟨_, h, rfl, ⟨rfl, rfl, rfl, rfl, ?_⟩, hdone⟩, fun h => by cases h⟩
    exact ⟨hcount.symm, hcount ▸ hr⟩

theorem length_next {e : Entry R A D} (hv : s.valid = true) (he : Busy r s e) :
    if (s.next r i).dataSent then (e.sent ++ s.sentNow i).length = r
    else (e.sent ++ s.sentNow i).length = (s.next r i).count ∧ (s.next r i).count < r := by
  have hlength := he.length
  rw [next_of_busy hv, List.length_append, length_sentNow]
  cases hd : s.dataSent with
  | true =>
    have hfire : s.dataFire i = false := by simp [dataFire, memData, hd]
    rw [hd, if_pos rfl] at hlength
    rw [hfire, Bool.true_or, if_pos rfl, if_neg (by simp), Nat.add_zero, hlength]
  | false =>
    rw [hd, if_neg (by simp)] at hlength
    obtain ⟨hcount, hlt⟩ := hlength
    cases hfire : s.dataFire i with
    | false =>
      simp only [Bool.false_and, Bool.or_false, Bool.false_eq_true, if_false, Nat.add_zero]
      exact ⟨hcount, hlt⟩
    | true =>
      by_cases hlast : s.count = r - 1
      · simp only [hlast, decide_true, Bool.and_true, Bool.or_true, if_true, hcount]
        omega
      · have hsucc : s.count + 1 < r := by omega
        have hmod : (s.count + 1) % 2 ^ Bits.log2Up r = s.count + 1 :=
          Nat.mod_eq_of_lt (hsucc.trans_le (Bits.le_two_pow_log2Up r))
        simp only [hlast, decide_false, Bool.and_false, Bool.or_false, Bool.false_eq_true, if_false,
          if_true, hmod, hcount]
        exact ⟨trivial, hsucc⟩

theorem inv_of_busy (hI : Inv r (s, h)) (hc : Clear s i)
    (hv : s.valid = true) : Inv r (s.next r i, s.record i h) := by
  obtain ⟨e, es, rfl, he, hes⟩ := hI.1 hv
  have hrecord : s.record i (e :: es) = { e with
      cmds := e.cmds ++ if i.memCmdReady then s.memCmd.toList else []
      taken := e.taken ++ s.taken i
      sent := e.sent ++ s.sentNow i } :: es := by
    rw [record, accepted_of_busy hv]
    rfl
  have hkept : e.taken ++ s.taken i = (e.sent ++ s.sentNow i).map fun d => (e.who, d) := by
    rw [taken_of_clear hv hc, List.map_append, ← he.who]
    exact congrArg (· ++ _) he.kept
  have hcmds : (e.cmds ++ if i.memCmdReady then s.memCmd.toList else []) =
      if s.cmdSent || i.memCmdReady then [s.addr] else [] := by
    rw [he.cmds, memCmd, hv]
    cases s.cmdSent <;> cases i.memCmdReady <;> rfl
  have hlength := length_next (i := i) hv he
  have hnext := next_of_busy (r := r) (i := i) hv
  rw [hrecord]
  constructor
  · intro _
    refine ⟨_, es, rfl, ⟨?_, ?_, ?_, hkept, hlength⟩, hes⟩
    · rw [hnext]
      exact he.who
    · rw [hnext]
      exact he.addr
    · rw [hnext]
      exact hcmds
  · intro hdone e' he'
    rcases List.mem_cons.1 he' with rfl | he'
    · rw [hnext, Bool.not_eq_false', Bool.and_eq_true] at hdone
      have hsent : (s.next r i).dataSent = true := by
        rw [hnext]
        exact hdone.2
      rw [if_pos hsent] at hlength
      refine ⟨?_, hlength, hkept⟩
      rw [hdone.1, Bool.true_or, if_pos rfl, ← he.addr] at hcmds
      exact hcmds
    · exact hes e' he'

theorem inv_next (hr : 0 < r) (hI : Inv r (s, h)) (hc : Clear s i) :
    Inv r (s.next r i, s.record i h) := by
  cases hv : s.valid with
  | false => exact inv_of_idle hr hI hc hv
  | true => exact inv_of_busy hI hc hv

theorem whole_of_inv {x : Writeback R A × List (Entry R A D)} (hI : Inv r x) : Whole r x := by
  obtain ⟨s, h⟩ := x
  cases hv : s.valid with
  | false =>
    have hdone := hI.2 hv
    simpa only [Whole, hv] using hdone
  | true =>
    obtain ⟨e, es, hh, he, hes⟩ := hI.1 hv
    obtain rfl : h = e :: es := hh
    have hlength := he.length
    have hbegun : e.Begun r := by
      refine ⟨?_, ?_, he.kept⟩
      · rw [he.cmds, he.addr]
        cases s.cmdSent
        · exact .inl rfl
        · exact .inr rfl
      · split at hlength <;> omega
    simpa only [Whole, hv] using ⟨hbegun, hes⟩

end Step

/-! ### Runs -/

/-- Memory takes commands again and again, and while beats are wanted one is shown and taken again
and again. -/
structure Fair (st : ℕ → Writeback R A × List (Entry R A D)) (lab : ℕ → In R A D) : Prop where
  cmd : ∀ t, ∃ u ≥ t, (lab u).memCmdReady = true
  data : ∀ t, ∃ u ≥ t, (st u).1.valid = true → (st u).1.dataSent = false →
    (st u).1.dataFire (lab u) = true

section Run

variable {r : ℕ} {st : ℕ → Writeback R A × List (Entry R A D)} {lab : ℕ → In R A D}

variable {t : ℕ} {k : ℕ} {x : Writeback R A × List (Entry R A D)}

theorem inv_of_clear (hr : 0 < r) (hrun : (machine R A D r).Run st lab)
    (hc : ∀ u < t, Clear (st u).1 (lab u)) : Inv r (st t) := by
  induction t with
  | zero =>
    obtain ⟨⟨hvalid, -⟩, hempty⟩ := hrun.init
    refine ⟨fun h => absurd (hvalid.symm.trans h) Bool.false_ne_true, fun _ e he => ?_⟩
    rw [hempty] at he
    cases he
  | succ t ih =>
    have hI := ih fun u hu => hc u (Nat.lt_succ_of_lt hu)
    obtain ⟨hnext, hrecord⟩ := hrun.step t
    have hstep := inv_next hr hI (hc t (Nat.lt_succ_self t))
    rwa [← hnext, ← hrecord] at hstep

/-- When the beats are out, the request is over as soon as the command is. -/
theorem idle_of_dataSent (hrun : (machine R A D r).Run st lab) (hfair : Fair st lab)
    (hsent : (st t).1.dataSent = true) : ∃ u ≥ t, (st u).1.valid = false := by
  by_contra hnone
  have hvalid (u : ℕ) (hu : u ≥ t) : (st u).1.valid = true := by
    rw [← Bool.not_eq_false]
    exact fun h => hnone ⟨u, hu, h⟩
  have hnext (u : ℕ) (hu : u ≥ t) := (hrun.step u).1.trans (next_of_busy (hvalid u hu))
  have hstays (u : ℕ) (hu : u ≥ t) : (st u).1.dataSent = true := by
    induction u, hu using Nat.le_induction with
    | base => exact hsent
    | succ u hu ih =>
      rw [hnext u hu]
      simp [ih]
  obtain ⟨u, hu, hready⟩ := hfair.cmd t
  have hcmd : (st (u + 1)).1.cmdSent = true := by
    rw [hnext u hu]
    simp [hready]
  have hlast := hvalid (u + 2) (by omega)
  rw [hnext (u + 1) (by omega)] at hlast
  simp [hcmd, hstays (u + 1) (by omega)] at hlast

theorem exists_dataSent (hr : 0 < r) (hrun : (machine R A D r).Run st lab)
    (hc : ∀ t, Clear (st t).1 (lab t)) (hfair : Fair st lab)
    (hvalid : ∀ u ≥ t, (st u).1.valid = true) : ∃ u ≥ t, (st u).1.dataSent = true := by
  by_contra hnone
  have hwant (u : ℕ) (hu : u ≥ t) : (st u).1.dataSent = false := by
    rw [← Bool.not_eq_true]
    exact fun h => hnone ⟨u, hu, h⟩
  have hcount (u : ℕ) (hu : u ≥ t) : (st u).1.count < r := by
    obtain ⟨e, es, -, he, -⟩ := (inv_of_clear hr hrun fun v (_ : v < u) => hc v).1 (hvalid u hu)
    have hlength := he.length
    rw [hwant u hu, if_neg (by simp)] at hlength
    exact hlength.2
  -- A beat moves the counter, and it is never the last one.
  have hstep (u : ℕ) (hu : u ≥ t) : (st (u + 1)).1.count =
      (st u).1.count + if (st u).1.dataFire (lab u) then 1 else 0 := by
    have hnext := (hrun.step u).1.trans (next_of_busy (hvalid u hu))
    have hlt := hcount u hu
    have hpow := Bits.le_two_pow_log2Up r
    have hstill := hwant (u + 1) (by omega)
    rw [hnext, hwant u hu, Bool.false_or] at hstill
    rw [hnext]
    cases hfire : (st u).1.dataFire (lab u) with
    | false => simp
    | true =>
      rw [hfire, Bool.true_and, decide_eq_false_iff_not] at hstill
      simp only [if_true]
      exact Nat.mod_eq_of_lt (by omega)
  have hmono (u v : ℕ) (hu : u ≥ t) (huv : u ≤ v) : (st u).1.count ≤ (st v).1.count := by
    induction v, huv using Nat.le_induction with
    | base => exact le_rfl
    | succ v hv ih =>
      rw [hstep v (hu.le.trans hv)]
      exact Nat.le_add_right_of_le ih
  have hgrows (k : ℕ) : ∃ u ≥ t, k ≤ (st u).1.count := by
    induction k with
    | zero => exact ⟨t, le_rfl, Nat.zero_le _⟩
    | succ k ih =>
      obtain ⟨u, hu, hk⟩ := ih
      obtain ⟨v, hv, hfire⟩ := hfair.data u
      have hvt : v ≥ t := hu.le.trans hv
      refine ⟨v + 1, by omega, ?_⟩
      rw [hstep v hvt, hfire (hvalid v hvt) (hwant v hvt), if_pos rfl]
      exact Nat.succ_le_succ (hk.trans (hmono u v hu hv))
  obtain ⟨u, hu, hk⟩ := hgrows r
  exact absurd (hcount u hu) (by omega)

/-- In a run of clear cycles each accepted request gets exactly one command with its address and
exactly `refill_cycles` beats, those taken from its requester, in order and once each, before the
next request is taken; and with a fair memory and requester it does get them. -/
theorem whole_of_clear (hr : 0 < r) (hrun : (machine R A D r).Run st lab)
    (hc : ∀ t, Clear (st t).1 (lab t)) :
    (∀ t, Whole r (st t)) ∧ (Fair st lab → ∀ t, ∃ u ≥ t, (st u).1.valid = false) := by
  refine ⟨fun t => whole_of_inv (inv_of_clear hr hrun fun u _ => hc u), fun hfair t => ?_⟩
  by_contra hnone
  have hvalid (u : ℕ) (hu : u ≥ t) : (st u).1.valid = true := by
    rw [← Bool.not_eq_false]
    exact fun h => hnone ⟨u, hu, h⟩
  obtain ⟨u, hu, hsent⟩ := exists_dataSent hr hrun hc hfair hvalid
  obtain ⟨v, hv, hidle⟩ := idle_of_dataSent hrun hfair hsent
  exact hnone ⟨v, hu.le.trans hv, hidle⟩

/-- With a power of two the counter is back at zero whenever the beats are out. -/
theorem count_of_two_pow (hrun : (machine R A D (2 ^ (k + 1))).Run st lab) (t : ℕ)
    (hout : (st t).1.valid = false ∨ (st t).1.dataSent = true) : (st t).1.count = 0 := by
  have hwidth : Bits.log2Up (2 ^ (k + 1)) = k + 1 := by
    rw [Bits.log2Up, if_neg (Nat.one_lt_two_pow k.succ_ne_zero).ne', Nat.clog_pow _ _ (by decide)]
  induction t with
  | zero => exact hrun.init.1.2
  | succ t ih =>
    rw [(hrun.step t).1] at hout ⊢
    cases hv : (st t).1.valid with
    | false =>
      rw [next_of_idle hv]
      cases nextReq (lab t) <;> exact ih (.inl hv)
    | true =>
      rw [next_of_busy hv] at hout ⊢
      cases hd : (st t).1.dataSent with
      | true =>
        have hfire : (st t).1.dataFire (lab t) = false := by simp [dataFire, memData, hd]
        simpa [hfire] using ih (.inr hd)
      | false =>
        have hlast : (st t).1.dataFire (lab t) = true ∧ (st t).1.count = 2 ^ (k + 1) - 1 := by
          simp only [hd, Bool.false_or, Bool.not_eq_false', Bool.and_eq_true,
            decide_eq_true_eq] at hout
          exact hout.elim And.right id
        have hpos := Nat.two_pow_pos (k + 1)
        simp only [hlast.1, hlast.2, if_true, hwidth]
        rw [Nat.sub_add_cancel hpos, Nat.mod_self]

theorem kept_of_whole {e : Entry R A D} {es : List (Entry R A D)} (h : Whole r x)
    (he : x.2 = e :: es) : e.Kept := by
  obtain ⟨s, h'⟩ := x
  obtain rfl : h' = e :: es := he
  cases hv : s.valid with
  | false =>
    simp only [Whole, hv] at h
    exact (h e List.mem_cons_self).kept
  | true =>
    simp only [Whole, hv] at h
    exact h.1.kept

theorem run_succ (hrun : (machine R A D r).Run st lab) (hx : st t = x) :
    st (t + 1) = (x.1.next r (lab t), record x.1 (lab t) x.2) :=
  hx ▸ Prod.ext (hrun.step t).1 (hrun.step t).2

theorem exists_run (r : ℕ) (who : Fin R) (addr : A) (lab : ℕ → In R A D) :
    ∃ st, (machine R A D r).Run st lab ∧ st 0 = (⟨false, who, addr, false, false, 0⟩, []) :=
  Machine.exists_run ⟨rfl, rfl⟩ lab

end Run

/-! ### Two runs -/

/-- One requester asks in the first cycle, and shows a beat in each of the next ones. -/
def oneRequest (beats : ℕ) (memCmdReady : Bool) (t : ℕ) : In 1 ℕ ℕ :=
  ⟨fun _ => if t = 0 then some 7 else none, fun _ => if t ≤ beats then some t else none,
    memCmdReady, true⟩

/-- Two beats, and a command that is taken at once. -/
theorem whole_two : ∃ st, (machine 1 ℕ ℕ 2).Run st (oneRequest 2 true) ∧ (∀ t, Whole 2 (st t)) ∧
    (st 3).2 = [⟨0, 7, [7], [(0, 1), (0, 2)], [1, 2]⟩] := by
  obtain ⟨st, hrun, h0⟩ := exists_run 2 0 0 (oneRequest 2 true)
  have h1 : st 1 = (⟨true, 0, 7, false, false, 0⟩, [⟨0, 7, [], [], []⟩]) :=
    run_succ hrun h0
  have h2 : st 2 = (⟨true, 0, 7, true, false, 1⟩, [⟨0, 7, [7], [(0, 1)], [1]⟩]) :=
    run_succ hrun h1
  have h3 : (st 3).2 = [⟨0, 7, [7], [(0, 1), (0, 2)], [1, 2]⟩] :=
    congrArg Prod.snd (run_succ hrun h2)
  refine ⟨st, hrun, (whole_of_clear (by decide) hrun fun t => ?_).1, h3⟩
  match t with
  | 0 =>
    rw [h0]
    exact ⟨fun _ _ => rfl, fun h => absurd h (by decide)⟩
  | 1 =>
    rw [h1]
    exact ⟨fun h => absurd h (by decide), fun _ h => absurd h (by decide)⟩
  | 2 =>
    rw [h2]
    exact ⟨fun h => absurd h (by decide), fun _ h => absurd h (by decide)⟩
  | t + 3 =>
    have hnone : nextReq (oneRequest 2 true (t + 3)) = none := nextReq_eq_none.2 fun _ => rfl
    refine ⟨fun _ h => ?_, fun _ _ h => ?_⟩
    · rw [hnone] at h
      cases h
    · simp [oneRequest] at h

/-- The command waits, and the requester has a third beat ready: the unit takes it. -/
theorem beat_lost : ∃ st, (machine 1 ℕ ℕ 2).Run st (oneRequest 3 false) ∧ ¬Whole 2 (st 4) ∧
    (st 4).2 = [⟨0, 7, [], [(0, 1), (0, 2), (0, 3)], [1, 2]⟩] := by
  obtain ⟨st, hrun, h0⟩ := exists_run 2 0 0 (oneRequest 3 false)
  have h1 : st 1 = (⟨true, 0, 7, false, false, 0⟩, [⟨0, 7, [], [], []⟩]) :=
    run_succ hrun h0
  have h2 : st 2 = (⟨true, 0, 7, false, false, 1⟩, [⟨0, 7, [], [(0, 1)], [1]⟩]) :=
    run_succ hrun h1
  have h3 : st 3 = (⟨true, 0, 7, false, true, 0⟩, [⟨0, 7, [], [(0, 1), (0, 2)], [1, 2]⟩]) :=
    run_succ hrun h2
  have h4 : (st 4).2 = [⟨0, 7, [], [(0, 1), (0, 2), (0, 3)], [1, 2]⟩] :=
    congrArg Prod.snd (run_succ hrun h3)
  exact ⟨st, hrun, fun hwhole => absurd (kept_of_whole hwhole h4) (by simp [Entry.Kept]), h4⟩

/-! ### The unit inside the cache -/

/-- The registers of `LLC.lean`. -/
def ofLLC (w : LLCWriteback) : Writeback 2 ℕ :=
  ⟨w.valid, w.who, w.addr, w.cmdSent, w.dataSent, w.count⟩

theorem nextReq_two (i : In 2 ℕ D) : nextReq i = LLCWriteback.nextReq i.req := by
  rw [nextReq, LLCWriteback.nextReq, priorityEncoder]
  cases h0 : i.req 0 <;> cases h1 : i.req 1 <;> simp [List.finRange, h0, h1]

theorem next_ofLLC (c : LLCConf) (w : LLCWriteback) (i : In 2 ℕ D) :
    (ofLLC w).next c.refillCycles i =
      ofLLC (w.next c i.req ((w.memData i.data).isSome && i.memDataReady)
        (w.memCmd.isSome && i.memCmdReady)) := by
  have hwidth : 2 ^ Bits.log2Up c.refillCycles = c.refillCycles := by
    rw [Bits.log2Up, if_neg c.one_lt_refillCycles.ne', Nat.clog_pow _ _ (by decide)]
  have hdata : (ofLLC w).dataFire i = ((w.memData i.data).isSome && i.memDataReady) := rfl
  have hcmd : (ofLLC w).cmdFire i = (w.memCmd.isSome && i.memCmdReady) := rfl
  rw [next, LLCWriteback.next, nextReq_two, hdata, hcmd, hwidth]
  generalize ((w.memData i.data).isSome && i.memDataReady) = dataFire
  generalize (w.memCmd.isSome && i.memCmdReady) = cmdFire
  obtain ⟨valid, who, addr, cmdSent, dataSent, count⟩ := w
  cases valid <;> cases LLCWriteback.nextReq i.req <;> cases dataFire <;> cases cmdFire <;>
    cases cmdSent <;> cases dataSent <;> by_cases hlast : count = c.refillCycles - 1 <;>
    simp [ofLLC, hlast]

end Writeback

end RiscvSoc
