import Mathlib.Tactic.FinCases
import RiscvSoc.Lib.Outbox
import RiscvSoc.Uncore.LLCStep

/-!
# Refills and writes of the same line in the last-level cache

Two kinds of writes leave `DRAMSideLLC` for memory: write misses, and dirty victims of read
misses. A victim waits in its MSHR until `LLCWriteback` has room for it; a write miss goes to
`LLCWriteback` directly; and there it waits for the memory port. A refill read of a line should not
be sent before the writes of that line that were accepted earlier.

A history variable keeps every write that was accepted, where it waits, and which of them were
sent. A write miss counts as accepted when it leaves the pipeline for `LLCWriteback`: the pipeline
holds one command at a time, so the write in it is younger than every read that has an MSHR.

## Where the order breaks

An MSHR blocks its whole set, its victim leaves before it asks for its line, and `memCmdArb` sends
what `LLCWriteback` holds only when no MSHR asks. So the one write a refill can overtake is the one
in `LLCWriteback`; nothing compares the two addresses. `NoOvertake` excludes just that.

## What memory promises

A beat of a refill answers an MSHR that asked for its line and still waits for it.
-/

namespace RiscvSoc

open LLCWriteback LLCMSHRFile

variable {c : LLCConf} {D : Type}

/-- The writes on their way to memory: place `some j` is the victim of MSHR `j`, place `none` is
`LLCWriteback`. -/
abbrev LineOutbox (c : LLCConf) : Type := Outbox (Option (Fin c.outstanding)) ℕ

namespace DRAMSideLLC

variable {s : DRAMSideLLC c D} {g : LineOutbox c} {i : LLCInput c D} {j : Fin c.outstanding}

/-- The MSHR that is allocated with a dirty victim, and the victim. -/
def victimAlloc (s : DRAMSideLLC c D) : Option (Fin c.outstanding × ℕ) :=
  s.missAlloc.bind fun (cmd, _, repl) =>
    if repl.dirty && repl.valid then
      s.mshr.freeId.map fun j => (j, repl.tag * c.sets + cmd.addr % c.sets)
    else none

/-- What happens to `LLCWriteback`'s place in a cycle. -/
def nextWritebackPlace (s : DRAMSideLLC c D) (i : LLCInput c D) (g : LineOutbox c) :
    LineOutbox c :=
  match s.victimFire with
  | some j => g.move (some j) none
  | none =>
    if s.missWrite then g.accept none s.s2.addr
    else if s.wbCmdFire i then g.send none
    else g

/-- The history after a cycle. -/
def nextOutbox (s : DRAMSideLLC c D) (i : LLCInput c D) (g : LineOutbox c) : LineOutbox c :=
  match s.victimAlloc with
  | some (j, line) => (s.nextWritebackPlace i g).accept (some j) line
  | none => s.nextWritebackPlace i g

/-- The cache and its history. -/
def refillMachine (c : LLCConf) (D : Type) : Machine (DRAMSideLLC c D × LineOutbox c)
    (LLCInput c D) :=
  (machine c D).observe .empty nextOutbox

/-- **A refill goes after the writes.** If memory takes the refill read of a line, every write of
that line that was accepted has been sent. -/
def RefillAfterWrites (s : DRAMSideLLC c D × LineOutbox c) (i : LLCInput c D) : Prop :=
  ∀ j, s.1.refillReq = some j → i.memCmdReady = true → s.2.AllSent (s.1.mshr.mshr j).addr

/-- Memory takes no command while an MSHR asks for the line that `LLCWriteback` has yet to send
its command for. -/
def NoOvertake (s : DRAMSideLLC c D × LineOutbox c) (i : LLCInput c D) : Prop :=
  ∀ j, s.1.refillReq = some j → i.memCmdReady = true →
    s.1.writeback.memCmd ≠ some (s.1.mshr.mshr j).addr

/-- What memory promises: it answers MSHRs that wait for an answer. -/
def RespOk (s : DRAMSideLLC c D × LineOutbox c) (i : LLCInput c D) : Prop :=
  ∀ j d, i.memResp = some (j, d) → s.1.mshr.valid j = true ∧
    (s.1.mshr.mshr j).requested = true ∧ (s.1.mshr.mshr j).refilled = false

/-! ### What holds in every run -/

/-- The invariant of the cache next to its outbox. -/
structure RefillInv (s : DRAMSideLLC c D) (g : LineOutbox c) : Prop where
  sound : g.Sound
  /-- `LLCWriteback` holds the write it has not sent the command of. -/
  writeback : g.item none = s.writeback.memCmd
  /-- An MSHR holds its victim until it is handed over. -/
  victim : ∀ j, g.item (some j) =
    if s.mshr.valid j && (s.mshr.mshr j).oldDirty then some (s.mshr.mshr j).victim else none
  /-- Every MSHR has its set to itself. -/
  sets : ∀ j k, s.mshr.valid j = true → s.mshr.valid k = true →
    (s.mshr.mshr j).addr % c.sets = (s.mshr.mshr k).addr % c.sets → j = k
  /-- The victim leaves before the line is asked for, and the line is asked for before it comes. -/
  clean : ∀ j, s.mshr.valid j = true → (s.mshr.mshr j).requested = true →
    (s.mshr.mshr j).oldDirty = false
  requested : ∀ j, s.mshr.valid j = true → (s.mshr.mshr j).refilled = true →
    (s.mshr.mshr j).requested = true

theorem RefillInv.of_isReset (h : s.IsReset) : RefillInv s .empty where
  sound := .empty
  writeback := by simp [memCmd, h.wbValid, Outbox.item, Outbox.empty]
  victim j := by simp [h.mshr j, Outbox.item, Outbox.empty]
  sets j _ hj := absurd (hj.symm.trans (h.mshr j)) (by decide)
  clean j hj := absurd (hj.symm.trans (h.mshr j)) (by decide)
  requested j hj := absurd (hj.symm.trans (h.mshr j)) (by decide)

/-- **One cycle.** The refill is sent in order exactly if it does not overtake. -/
theorem RefillInv.refillAfterWrites_iff (h : RefillInv s g) :
    RefillAfterWrites (s, g) i ↔ NoOvertake (s, g) i := by
  constructor
  · intro hall j hj hready hcmd
    exact h.sound.allSent_iff.mp (hall j hj hready) none (h.writeback.trans hcmd)
  · intro hno j hj hready
    obtain ⟨hvalid, hclean, _⟩ := of_memReq hj
    refine h.sound.allSent_iff.mpr fun place hitem => ?_
    rcases place with _ | k
    · exact hno j hj hready (h.writeback.symm.trans hitem)
    · rw [h.victim k] at hitem
      split at hitem
      · rename_i hdirty
        obtain ⟨hk, hdirty⟩ := Bool.and_eq_true_iff.mp hdirty
        -- a victim is in the same set as its MSHR, so `k` is `j`, which has no victim left
        have hset : (s.mshr.mshr k).addr % c.sets = (s.mshr.mshr j).addr % c.sets := by
          rw [← Option.some.inj hitem, MSHR.victim, Nat.mul_add_mod_self_right, Nat.mod_mod]
        cases h.sets k j hk hvalid hset
        exact absurd (hdirty.symm.trans hclean) (by decide)
      · cases hitem

/-! ### One cycle -/

/-- `LLCWriteback`'s place after a cycle; the victims that were not handed over stay. -/
theorem RefillInv.nextWritebackPlace (h : RefillInv s g) :
    (s.nextWritebackPlace i g).Sound ∧
      (s.nextWritebackPlace i g).item none = (s.next i).writeback.memCmd ∧
      ∀ k, (s.nextWritebackPlace i g).item (some k) =
        if s.mshr.valid k && (s.mshr.mshr k).oldDirty && !decide (s.victimFire = some k) then
          some (s.mshr.mshr k).victim
        else none := by
  have hidle : s.writeback.valid = false → g.held none = none := by
    intro hv
    refine h.sound.held_eq_none (h.writeback.trans ?_)
    simp [memCmd, hv]
  rw [memCmd_next]
  rcases hvictim : s.victimFire with _ | j
  · have hkeep : ∀ k, (if s.mshr.valid k && (s.mshr.mshr k).oldDirty &&
        !decide ((none : Option (Fin c.outstanding)) = some k) then some (s.mshr.mshr k).victim
        else none) = g.item (some k) := by
      intro k
      rw [h.victim k]
      simp
    cases hm : s.missWrite with
    | true =>
      -- a write miss
      obtain ⟨_, _, hv, -⟩ := of_missWrite hm
      have hplace : s.nextWritebackPlace i g = g.accept none s.s2.addr := by
        simp [DRAMSideLLC.nextWritebackPlace, hvictim, hm]
      rw [hplace]
      refine ⟨h.sound.accept (hidle hv), Outbox.item_accept h.sound _, fun k => ?_⟩
      rw [Outbox.item_accept h.sound, hkeep]
      rfl
    | false =>
      cases hfire : s.wbCmdFire i with
      | true =>
        -- the command is sent
        have hplace : s.nextWritebackPlace i g = g.send none := by
          simp [DRAMSideLLC.nextWritebackPlace, hvictim, hm, hfire]
        rw [hplace]
        refine ⟨h.sound.send, Outbox.item_send _, fun k => ?_⟩
        rw [Outbox.item_send, hkeep]
        rfl
      | false =>
        have hplace : s.nextWritebackPlace i g = g := by
          simp [DRAMSideLLC.nextWritebackPlace, hvictim, hm, hfire]
        rw [hplace]
        exact ⟨h.sound, h.writeback, fun k => (hkeep k).symm⟩
  · -- a victim is handed over
    obtain ⟨hv, -⟩ := of_victimFire hvictim
    obtain ⟨hvalid, hdirty⟩ := of_writebackFire hvictim
    have hplace : s.nextWritebackPlace i g = g.move (some j) none := by
      simp [DRAMSideLLC.nextWritebackPlace, hvictim]
    have hne : some j ≠ none := Option.some_ne_none j
    rw [hplace]
    refine ⟨h.sound.move (hidle hv) hne, ?_, fun k => ?_⟩
    · rw [Outbox.item_move hne]
      simp [h.victim j, hvalid, hdirty]
    · rw [Outbox.item_move hne]
      by_cases hk : k = j
      · subst hk
        simp
      · simp [hk, h.victim k, Ne.symm hk]

variable {a : MemReqCmd × Fin c.ways × LLCMeta} {k : Fin c.outstanding}

theorem RespOk.answers_of_alloc (h : RespOk (s, g) i) (ha : s.allocTo k = some a) :
    answers i k = false := by
  by_contra hans
  have hans : answers i k = true := by simpa using hans
  obtain ⟨⟨_, d⟩, hr, rfl⟩ := Option.map_eq_some_iff.mp (of_decide_eq_true hans)
  rw [allocTo_of_valid (h _ d hr).1] at ha
  cases ha

theorem RefillInv.tagFire_ne (h : RefillInv s g)
    (hdirty : (s.mshr.mshr k).oldDirty = true) : s.tagFire ≠ some k := by
  intro htag
  obtain ⟨hvalid, hrefilled⟩ := of_tagFire htag
  have hclean := h.clean k hvalid (h.requested k hvalid hrefilled)
  exact absurd (hdirty.symm.trans hclean) (by decide)

theorem victimAlloc_eq (ha : s.allocTo k = some a) : s.victimAlloc =
    if a.2.2.dirty && a.2.2.valid then some (k, a.2.2.tag * c.sets + a.1.addr % c.sets)
    else none := by
  obtain ⟨hfree, hmiss⟩ := allocTo_eq_some.mp ha
  simp [victimAlloc, hmiss, hfree]

theorem allocTo_of_victimAlloc {line : ℕ} (h : s.victimAlloc = some (k, line)) :
    ∃ a, s.allocTo k = some a := by
  rcases hmiss : s.missAlloc with _ | a
  · simp [victimAlloc, hmiss] at h
  · obtain ⟨-, ⟨j, hfree⟩, -⟩ := of_missAlloc hmiss
    have ha := allocTo_eq_some.mpr ⟨hfree, hmiss⟩
    rw [victimAlloc_eq ha] at h
    split at h
    · cases h
      exact ⟨a, ha⟩
    · cases h

/-- The victim of an MSHR after a cycle is one that stayed or one that is new. -/
theorem RefillInv.victim_next (h : RefillInv s g) (hresp : RespOk (s, g) i)
    (k : Fin c.outstanding) : (s.nextOutbox i g).item (some k) =
      if (s.next i).mshr.valid k && ((s.next i).mshr.mshr k).oldDirty then
        some ((s.next i).mshr.mshr k).victim
      else none := by
  obtain ⟨hsound, _, hplace⟩ := h.nextWritebackPlace (i := i)
  rw [DRAMSideLLC.nextOutbox]
  rcases halloc : s.allocTo k with _ | a
  · have hkept := missKept (i := i) halloc
    have hvalid := valid_next_of_kept (i := i) halloc
    have hitem : (match s.victimAlloc with
        | some (j, line) => (s.nextWritebackPlace i g).accept (some j) line
        | none => s.nextWritebackPlace i g).item (some k) =
          (s.nextWritebackPlace i g).item (some k) := by
      rcases hv : s.victimAlloc with _ | ⟨j, line⟩
      · rfl
      · obtain ⟨a, ha⟩ := allocTo_of_victimAlloc hv
        have hne : k ≠ j := by
          rintro rfl
          rw [halloc] at ha
          cases ha
        rw [Outbox.item_accept hsound, if_neg (by simpa using hne)]
    rw [hitem, hplace k, hkept.oldDirty, MSHR.victim, MSHR.victim, hkept.addr, hkept.oldTag]
    cases hdirty : (s.mshr.mshr k).oldDirty with
    | false => simp
    | true =>
      have hsame : (s.next i).mshr.valid k = s.mshr.valid k := by
        rw [Bool.eq_iff_iff, hvalid]
        exact and_iff_right (h.tagFire_ne hdirty)
      rw [hsame, Bool.and_true, Bool.true_and]
  · have hidle := valid_of_freeId (allocTo_eq_some.mp halloc).1
    have hvalid : (s.next i).mshr.valid k = true := by
      refine valid_next.mpr ⟨fun htag => ?_, .inl ⟨a, halloc⟩⟩
      exact absurd ((of_tagFire htag).1.symm.trans hidle) (by decide)
    rw [hvalid, mshr_of_alloc halloc (hresp.answers_of_alloc halloc),
      victimAlloc_eq halloc]
    cases hdirty : a.2.2.dirty && a.2.2.valid with
    | true => simp [hdirty, Outbox.item_accept hsound, LLCMSHRFile.MSHR.allocate, MSHR.victim]
    | false => simp [hdirty, hplace k, hidle, LLCMSHRFile.MSHR.allocate]

theorem RefillInv.nextOutbox (h : RefillInv s g) :
    (s.nextOutbox i g).Sound ∧ (s.nextOutbox i g).item none = (s.next i).writeback.memCmd := by
  obtain ⟨hsound, hwb, hplace⟩ := h.nextWritebackPlace (i := i)
  rw [DRAMSideLLC.nextOutbox]
  rcases hv : s.victimAlloc with _ | ⟨j, line⟩
  · exact ⟨hsound, hwb⟩
  · obtain ⟨a, ha⟩ := allocTo_of_victimAlloc hv
    have hidle : s.mshr.valid j = false := valid_of_freeId (allocTo_eq_some.mp ha).1
    refine ⟨hsound.accept (hsound.held_eq_none ?_), ?_⟩
    · rw [hplace j, hidle]
      rfl
    · exact (Outbox.item_accept hsound _).trans hwb

theorem RefillInv.next (h : RefillInv s g) (hresp : RespOk (s, g) i) :
    RefillInv (s.next i) (s.nextOutbox i g) where
  sound := h.nextOutbox.1
  writeback := h.nextOutbox.2
  victim := h.victim_next hresp
  sets _ _ := sets_next (fun _ _ => hresp.answers_of_alloc) h.sets
  clean j hj := by
    rcases of_valid_next hj with ⟨a, ha⟩ | ⟨hvalid, ha, -⟩
    · rw [mshr_of_alloc ha (hresp.answers_of_alloc ha)]
      intro hset
      cases hset
    · rw [(missKept ha).requested, (missKept ha).oldDirty, Bool.or_eq_true]
      rintro (hreq | hask)
      · rw [h.clean j hvalid hreq, Bool.false_and]
      · rw [(of_asks hask).2.1, Bool.false_and]
  requested j hj := by
    rcases of_valid_next hj with ⟨a, ha⟩ | ⟨hvalid, ha, -⟩
    · rw [mshr_of_alloc ha (hresp.answers_of_alloc ha)]
      intro hset
      cases hset
    · rw [(missKept ha).refilled, (missKept ha).requested, Bool.or_eq_true, Bool.or_eq_true]
      rintro (hrefilled | hanswered)
      · exact .inl (h.requested j hvalid hrefilled)
      · have hans := (Bool.and_eq_true_iff.mp hanswered).1
        obtain ⟨⟨_, d⟩, hr, rfl⟩ := Option.map_eq_some_iff.mp (of_decide_eq_true hans)
        exact .inl (hresp _ d hr).2.1

/-- **No refill overtakes a write.** While memory keeps its promise, the refill of this cycle is
sent after all earlier writes of its line exactly if no write of the line is at the memory port. -/
theorem refillAfterWrites_iff_noOvertake (c : LLCConf) (D : Type) :
    ∀ s, ((refillMachine c D).restrict RespOk).Reachable s →
      ∀ i, RefillAfterWrites s i ↔ NoOvertake s i := by
  have hinv : ∀ s, ((refillMachine c D).restrict RespOk).Reachable s → RefillInv s.1 s.2 := by
    refine Machine.invariant ?_ ?_
    · rintro ⟨s, g⟩ ⟨hreset, rfl⟩
      exact .of_isReset hreset
    · rintro ⟨s, g⟩ i ⟨s', g'⟩ _ h ⟨hresp, rfl, rfl⟩
      exact h.next hresp
  exact fun s hs i => (hinv s hs).refillAfterWrites_iff

theorem refillMachine_reset (d : D) :
    ((refillMachine c D).restrict RespOk).Reachable (reset d, .empty) :=
  .init ⟨isReset_reset d, rfl⟩

/-- A write miss of line `0`, whose command memory does not take, and a read miss of line `0`. -/
def writeThenRead : List (LLCInput .small Bool) :=
  [.quiet, .quiet, { LLCInput.quiet with reqCmd := some ⟨true, 0, 0⟩ }, .quiet, .quiet,
    { LLCInput.quiet with reqCmd := some ⟨false, 0, 0⟩ }, .quiet, .quiet]

/-- When memory takes a command again, the refill goes first. -/
theorem not_refillAfterWrites : ¬∀ s, ((refillMachine .small Bool).restrict RespOk).Reachable s →
    ∀ i, RefillAfterWrites s i := by
  intro h
  have hrun : ∃ s, ((refillMachine .small Bool).restrict RespOk).Reachable s ∧
      s.1.refillReq = some ⟨0, by decide⟩ ∧ (s.1.mshr.mshr ⟨0, by decide⟩).addr = 0 ∧
      s.2.accepted = [0] ∧ s.2.sent = [] := by
    refine ⟨Machine.cycles next nextOutbox writeThenRead (reset false, .empty),
      Machine.reachable_restrict_cycles (refillMachine_reset false) writeThenRead
        (.of_forall ?_ _),
      by decide +kernel, by decide +kernel, by decide +kernel, by decide +kernel⟩
    intro a ha s j d hresp
    have hnone : a.memResp = none := by
      fin_cases ha <;> rfl
    rw [hnone] at hresp
    cases hresp
  obtain ⟨s, hreach, hrefill, haddr, haccepted, hsent⟩ := hrun
  have hall := h s hreach { LLCInput.quiet with memCmdReady := true } _ hrefill rfl 0
    (by rw [haccepted, haddr]; rfl)
  rw [hsent] at hall
  cases hall

end DRAMSideLLC

end RiscvSoc
