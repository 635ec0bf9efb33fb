import RiscvSoc.Uncore.LLCMiss

/-!
# What the reads of the last-level cache return

A line's version is the number of writes of it that were accepted. A history variable keeps it, and
the versions that memory has, that every place of the data array has, that `LLCWriteback` writes and
that memory read for a refill. Here a command moves a line at once, when the unit that serves it
takes it; that its beats follow in order is the subject of `LLCWrite.lean` and `LLCMiss.lean`.

A line has its last version in the data array, or on its way out of `LLCWriteback`, or in memory
(`LineInv.current`). So the version a refill gets is the last one, unless the refill overtakes the
write that is on its way out: in a run in which none does, every read returns the last version.

The tag array is cleared after reset, and no command is taken before that is done.
-/

namespace RiscvSoc

open LLCMSHRFile

variable {c : LLCConf} {D : Type}

structure LLCVersions (c : LLCConf) where
  /-- How many writes of the line were accepted. -/
  last : ℕ → ℕ
  memory : ℕ → ℕ
  array : Fin c.ways → ℕ → ℕ
  /-- What `LLCWriteback` writes. -/
  writeback : ℕ
  /-- What memory read for the refill of an MSHR. -/
  refill : Fin c.outstanding → ℕ

def LLCVersions.zero : LLCVersions c := ⟨fun _ => 0, fun _ => 0, fun _ _ => 0, 0, fun _ => 0⟩

namespace DRAMSideLLC

variable (s : DRAMSideLLC c D) (i : LLCInput c D) (v : LLCVersions c)

/-- A write is accepted. -/
def writes : Bool := s.hitWrite || s.missWrite

/-- A hit of a read reaches `LLCData`. -/
def hitRead : Bool := s.hitReq.isSome && s.hitReady && !s.s2.rw

/-- The versions after a cycle. -/
def nextVersions : LLCVersions c where
  last line := if s.writes ∧ line = s.s2.addr then v.last line + 1 else v.last line
  memory line := if s.wbCmdFire i ∧ line = s.writeback.addr then v.writeback else v.memory line
  array way set :=
    match s.tagFire with
    | some j =>
      if way = (s.mshr.mshr j).way ∧ set = (s.mshr.mshr j).addr % c.sets then v.refill j
      else v.array way set
    | none =>
      if s.hitWrite ∧ way = s.s2HitWay ∧ set = s.s2.addr % c.sets then v.last s.s2.addr + 1
      else v.array way set
  writeback :=
    match s.victimFire with
    | some j => v.array (s.mshr.mshr j).way ((s.mshr.mshr j).addr % c.sets)
    | none => if s.missWrite then v.last s.s2.addr + 1 else v.writeback
  refill j := if s.asks i j then v.memory (s.mshr.mshr j).addr else v.refill j

/-- **Every read returns the last version:** a hit, and a miss when its line is there. -/
def ReadsLast (s : DRAMSideLLC c D) (v : LLCVersions c) : Prop :=
  (s.hitRead = true → v.array s.s2HitWay (s.s2.addr % c.sets) = v.last s.s2.addr) ∧
  ∀ j, s.tagFire = some j → v.refill j = v.last (s.mshr.mshr j).addr

variable {s i v} {j k : Fin c.outstanding} {way way' : Fin c.ways} {line line' : ℕ}

theorem victim_div (m : MSHR c) : m.victim / c.sets = m.oldTag := by
  have hpos : 0 < c.sets := Nat.two_pow_pos _
  rw [MSHR.victim, Nat.mul_comm, Nat.mul_add_div hpos, Nat.div_eq_of_lt (Nat.mod_lt _ hpos),
    Nat.add_zero]

/-! ### The tag array -/

/-- The tag array has the line in this way. The sets from `initCount` on are not cleared yet. -/
def Holds (s : DRAMSideLLC c D) (way : Fin c.ways) (line : ℕ) : Prop :=
  line % c.sets < s.initCount ∧ (s.tags (line % c.sets) way).valid = true ∧
    (s.tags (line % c.sets) way).tag = line / c.sets

theorem eq_of_div_mod (hmod : line % c.sets = line' % c.sets)
    (hdiv : line / c.sets = line' / c.sets) : line = line' := by
  rw [← Nat.div_add_mod line c.sets, ← Nat.div_add_mod line' c.sets, hmod, hdiv]

theorem Holds.line_eq (h : s.Holds way line) (h' : s.Holds way line')
    (hset : line % c.sets = line' % c.sets) : line = line' :=
  eq_of_div_mod hset (by rw [← h.2.2, ← h'.2.2, hset])

/-- The command in the pipeline and the tags that were read for it. -/
structure TagInv (s : DRAMSideLLC c D) : Prop where
  one : s.OneCommand
  /-- While the tag array is cleared, nothing else happens. -/
  idle : s.initializing = true → s.s1Valid = false ∧ s.s2Valid = false ∧ s.replayS2 = false ∧
    (∀ j, s.mshr.valid j = false) ∧ ∀ way line, ¬s.Holds way line
  read : s.s1Valid = true → s.tagRidx = s.s1.addr % c.sets
  snapshot : s.s2Valid = true → s.s2Tags = s.tags (s.s2.addr % c.sets)
  unique : ∀ way way' line, s.Holds way line → s.Holds way' line → way = way'
  /-- The line of a miss is not there, and the victim is. -/
  absent : ∀ j way, s.mshr.valid j = true → ¬s.Holds way (s.mshr.mshr j).addr
  victim : ∀ j, s.mshr.valid j = true → (s.mshr.mshr j).oldDirty = true →
    s.Holds (s.mshr.mshr j).way (s.mshr.mshr j).victim

theorem set_lt (hready : s.initializing = false) (line : ℕ) : line % c.sets < s.initCount := by
  have hle : c.sets ≤ s.initCount := by simpa [initializing] using hready
  exact (Nat.mod_lt line (Nat.two_pow_pos _)).trans_le hle

section

variable (h : TagInv s)
include h

theorem TagInv.ready (hs2 : s.s2Valid = true) : s.initializing = false := by
  by_contra hinit
  rw [(h.idle (by simpa using hinit)).2.1] at hs2
  cases hs2

theorem TagInv.s2Hits_iff (hs2 : s.s2Valid = true) :
    s.s2Hits way = true ↔ s.Holds way s.s2.addr := by
  rw [s2Hits, h.snapshot hs2, Bool.and_eq_true, decide_eq_true_iff, Holds]
  exact ⟨fun hw => ⟨set_lt (h.ready hs2) _, hw.1, hw.2.symm⟩, fun hw => ⟨hw.2.1, hw.2.2.symm⟩⟩

theorem TagInv.holds_of_hit (hs2 : s.s2Valid = true) (hhit : s.s2Hit = true) :
    s.Holds s.s2HitWay s.s2.addr := by
  obtain ⟨way, hway⟩ := orR_eq_true.mp hhit
  have hholds := (h.s2Hits_iff hs2).mp hway
  have heq : s.s2HitWay = way := ohToUInt_eq fun way' =>
    ⟨fun hw => h.unique _ _ _ ((h.s2Hits_iff hs2).mp hw) hholds, fun hw => hw ▸ hway⟩
  rwa [heq]

theorem TagInv.not_holds_of_miss (hs2 : s.s2Valid = true) (hhit : s.s2Hit = false) :
    ¬s.Holds way s.s2.addr := fun hholds => by
  have := orR_eq_true.mpr ⟨way, (h.s2Hits_iff hs2).mpr hholds⟩
  rw [← s2Hit, hhit] at this
  cases this

omit h in
/-- A line comes into the tag array when nothing is in the pipeline. -/
theorem of_tagFire_some (htag : s.tagFire = some j) : s.s1Valid = false ∧ s.s2Valid = false ∧
    s.mshr.valid j = true ∧ (s.mshr.mshr j).refilled = true ∧
    s.mshrData = some ⟨⟨false, (s.mshr.mshr j).addr, (s.mshr.mshr j).tag⟩,
      (s.mshr.mshr j).way, false⟩ := by
  obtain ⟨hvalid, hrefilled⟩ := LLCMSHRFile.of_tagFire htag
  rw [tagFire, LLCMSHRFile.tagFire] at htag
  split at htag
  · rename_i hready
    have htagReady := (Bool.and_eq_true_iff.mp hready).2
    have hpipe : s.s1Valid = false ∧ s.s2Valid = false := by simpa [tagReady] using htagReady
    refine ⟨hpipe.1, hpipe.2, hvalid, hrefilled, ?_⟩
    rw [mshrData, LLCMSHRFile.data, htag, htagReady]
    rfl
  · cases htag

theorem TagInv.tags_next (set : ℕ) (way : Fin c.ways) : (s.next i).tags set way =
    if s.initializing then
      if set = s.initCount then ⟨false, false, s.tagAddr / c.sets⟩ else s.tags set way
    else if s.setDirty then
      if set = s.s2.addr % c.sets ∧ way = s.s2HitWay then ⟨true, true, s.s2.addr / c.sets⟩
      else s.tags set way
    else match s.tagFire with
      | some j =>
        if set = (s.mshr.mshr j).addr % c.sets ∧ way = (s.mshr.mshr j).way then
          ⟨false, true, (s.mshr.mshr j).addr / c.sets⟩
        else s.tags set way
      | none => s.tags set way := by
  change s.tagWrite set way = _
  rw [tagWrite, tagWe]
  cases hinit : s.initializing with
  | true =>
    have hlt : s.initCount < c.sets := of_decide_eq_true hinit
    have hset : s.setDirty = false := by simp [setDirty, (h.idle hinit).2.1]
    simp [hset, Nat.mod_eq_of_lt hlt]
  | false =>
    cases hset : s.setDirty with
    | true => simp
    | false =>
      cases htag : s.tagFire with
      | none => simp
      | some j =>
        obtain ⟨-, -, -, -, hdata⟩ := of_tagFire_some htag
        simp [tagAddr, hdata]

omit h in
theorem tagFire_eq_none (hs2 : s.s2Valid = true) : s.tagFire = none := by
  rcases htag : s.tagFire with _ | j
  · rfl
  · exact absurd ((of_tagFire_some htag).2.1.symm.trans hs2) (by decide)

/-- A line is in the tag array after a cycle if it comes or if it was there and stays. -/
theorem TagInv.holds_next : (s.next i).Holds way line ↔
    (∃ j, s.tagFire = some j ∧ line = (s.mshr.mshr j).addr ∧ way = (s.mshr.mshr j).way) ∨
    s.Holds way line ∧ ∀ j, s.tagFire = some j →
      ¬(line % c.sets = (s.mshr.mshr j).addr % c.sets ∧ way = (s.mshr.mshr j).way) := by
  rw [Holds, h.tags_next]
  cases hinit : s.initializing with
  | true =>
    obtain ⟨-, -, -, hidle, hnone⟩ := h.idle hinit
    have htag : ∀ j, s.tagFire ≠ some j := fun j hj => by
      have := (of_tagFire_some hj).2.2.1
      rw [hidle j] at this
      cases this
    have hcount : (s.next i).initCount = s.initCount + 1 := by simp [DRAMSideLLC.next, hinit]
    have hno := hnone way line
    rw [Holds] at hno
    rw [hcount, if_pos rfl]
    simp only [htag, false_and, exists_false, false_or, hno, Holds, iff_false]
    rintro ⟨hlt, hvalid, hline⟩
    split at hvalid
    · cases hvalid
    · rename_i hne
      rw [if_neg hne] at hline
      exact hno ⟨by omega, hvalid, hline⟩
  | false =>
    have hcount : (s.next i).initCount = s.initCount := by simp [DRAMSideLLC.next, hinit]
    have hlt := set_lt hinit line
    rw [hcount]
    cases hset : s.setDirty with
    | true =>
      -- the place that is marked dirty has the line of the write
      simp only [setDirty, Bool.and_eq_true] at hset
      have hhit := h.holds_of_hit hset.1.1.1 hset.1.2
      rw [tagFire_eq_none hset.1.1.1]
      by_cases hplace : line % c.sets = s.s2.addr % c.sets ∧ way = s.s2HitWay
      · obtain ⟨hmod, rfl⟩ := hplace
        simp [hmod, Holds, hhit.2.1, hhit.2.2]
      · simp [hplace, Holds]
    | false =>
      rcases htag : s.tagFire with _ | j
      · simp [Holds]
      · by_cases hplace : line % c.sets = (s.mshr.mshr j).addr % c.sets ∧
            way = (s.mshr.mshr j).way
        · have heq : line / c.sets = (s.mshr.mshr j).addr / c.sets ↔
              line = (s.mshr.mshr j).addr := ⟨eq_of_div_mod hplace.1, congrArg (· / c.sets)⟩
          simp only [hplace, Option.some.injEq, exists_eq_left', ← heq]
          simp [← hplace.1, hlt, eq_comm]
        · have hne : ¬(line = (s.mshr.mshr j).addr ∧ way = (s.mshr.mshr j).way) := by
            rintro ⟨rfl, hway⟩
            exact hplace ⟨rfl, hway⟩
          simp [hplace, hne, Holds]
          exact fun _ _ _ hmod hway => hplace ⟨hmod, hway⟩

theorem TagInv.dirty_next (hold : s.Holds way line) (hnew : (s.next i).Holds way line)
    (hdirty : (s.tags (line % c.sets) way).dirty = true)
    (hstay : ∀ j, s.tagFire = some j → line ≠ (s.mshr.mshr j).addr) :
    ((s.next i).tags (line % c.sets) way).dirty = true := by
  have hready : s.initializing = false := by
    by_contra hinit
    exact (h.idle (by simpa using hinit)).2.2.2.2 way line hold
  rw [h.tags_next, hready]
  cases s.setDirty with
  | true =>
    simp only [Bool.false_eq_true, if_false, if_true]
    split <;> simp [hdirty]
  | false =>
    rcases htag : s.tagFire with _ | j
    · simpa using hdirty
    · rcases h.holds_next.mp hnew with ⟨k, hk, heq, -⟩ | ⟨-, hplace⟩
      · exact absurd heq (hstay k hk)
      · simpa [hplace j htag] using hdirty

omit h in
theorem of_hitReq (hhit : s.hitReq.isSome = true) : s.s2Valid = true ∧ s.s2Hit = true ∧
    ∀ k, s.mshr.valid k = true → s.s2.addr % c.sets ≠ (s.mshr.mshr k).addr % c.sets := by
  obtain ⟨r, hr⟩ := Option.isSome_iff_exists.mp hhit
  obtain ⟨⟨hs2, hhit, hready⟩, -⟩ := hitReq_eq hr
  exact ⟨hs2, hhit, (of_cpuReady hready).2⟩

omit h in
theorem hitReq_of_hitWrite (hw : s.hitWrite = true) : s.hitReq.isSome = true := by
  simp only [hitWrite, Bool.and_eq_true] at hw
  exact hw.1.1

omit h in
theorem of_missReq (hmiss : s.missWrite = true) : s.s2Hit = false ∧
    ∀ k, s.mshr.valid k = true → s.s2.addr % c.sets ≠ (s.mshr.mshr k).addr % c.sets := by
  simp only [missWrite, missReq, Bool.and_eq_true] at hmiss
  have hcond := hmiss.1
  split at hcond
  · rename_i hready
    exact ⟨by simpa using hready.1.1.2, (of_cpuReady hready.2).2⟩
  · cases hcond

theorem TagInv.dirty_of_hitWrite (hw : s.hitWrite = true) :
    ((s.next i).tags (s.s2.addr % c.sets) s.s2HitWay).dirty = true := by
  obtain ⟨hs2, hrw, -⟩ := of_hitWrite hw
  have hhit := (of_hitReq (hitReq_of_hitWrite hw)).2.1
  rw [h.tags_next, h.ready hs2, tagFire_eq_none hs2]
  cases hset : s.setDirty with
  | true => simp
  | false =>
    simp only [setDirty, hs2, hrw, hhit, s2HitDirty, h.snapshot hs2] at hset
    simpa using hset

omit h in
/-- An MSHR in use after a cycle has a new miss, or keeps its own. -/
theorem of_mshr_next {g : LineOutbox c} (hresp : RespOk (s, g) i)
    (hj : (s.next i).mshr.valid j = true) :
    (s.s2Valid = true ∧ s.s2Hit = false ∧
      (∀ k, s.mshr.valid k = true → s.s2.addr % c.sets ≠ (s.mshr.mshr k).addr % c.sets) ∧
      (s.next i).mshr.mshr j = LLCMSHRFile.MSHR.allocate (s.mshr.mshr j) s.s2 s.replWay
        (s.s2Tags s.replWay)) ∨
    s.mshr.valid j = true ∧ s.tagFire ≠ some j ∧ s.MissKept i j := by
  rcases of_valid_next hj with ⟨a, ha⟩ | ⟨hvalid, ha, htag⟩
  · have hno := hresp.answers_of_alloc ha
    obtain ⟨-, hmiss⟩ := allocTo_eq_some.mp ha
    obtain ⟨rfl, -, hsets⟩ := of_missAlloc hmiss
    rw [missAlloc] at hmiss
    split at hmiss
    · rename_i hcond
      simp only [Bool.and_eq_true, Bool.not_eq_true'] at hcond
      exact .inl ⟨hcond.1.1.1, hcond.1.1.2, hsets, mshr_of_alloc ha hno⟩
    · cases hmiss
  · exact .inr ⟨hvalid, htag, missKept ha⟩

/-- The next command in `s2` has the tags of its set. -/
theorem TagInv.snapshot_next (hs1 : s.s1Valid = true) :
    (s.next i).s2Tags = (s.next i).tags ((s.next i).s2.addr % c.sets) := by
  have hready : s.initializing = false := by
    by_contra hinit
    rw [(h.idle (by simpa using hinit)).1] at hs1
    cases hs1
  have hs2 : s.s2Valid = false := by
    rcases h.one with ⟨h₁, -, -⟩ | ⟨-, h₂, -⟩ | ⟨h₁, -, -⟩ | ⟨h₁, -, -⟩
    · exact absurd (h₁.symm.trans hs1) (by decide)
    · exact h₂
    · exact absurd (h₁.symm.trans hs1) (by decide)
    · exact absurd (h₁.symm.trans hs1) (by decide)
  have htag : s.tagFire = none := by
    rcases htag : s.tagFire with _ | j
    · rfl
    · exact absurd ((of_tagFire_some htag).1.symm.trans hs1) (by decide)
  have hset : s.setDirty = false := by simp [setDirty, hs2]
  have hkeep : (s.next i).tags = s.tags := by
    funext set way
    rw [h.tags_next, hready, hset, htag]
    rfl
  rw [hkeep]
  simp [DRAMSideLLC.next, hs1, h.read hs1]

omit h in
/-- The tag array is read for the command that goes to `s1`. -/
theorem read_next (hs1 : (s.next i).s1Valid = true) :
    (s.next i).tagRidx = (s.next i).s1.addr % c.sets := by
  have hs1 : ((s.reqCmdFire i).isSome || s.replayFire) = true := hs1
  cases hreplay : s.replayFire with
  | true =>
    have hwe : s.tagWe = false := by
      simp only [replayFire, replayS2Rdy, Bool.and_eq_true] at hreplay
      simpa using hreplay.2.2
    simp [DRAMSideLLC.next, hreplay, hwe]
  | false =>
    obtain ⟨cmd, hcmd⟩ := Option.isSome_iff_exists.mp ((Bool.or_eq_true_iff.mp hs1).resolve_right
      (by rw [hreplay]; exact Bool.false_ne_true))
    have hwe : s.tagWe = false := by
      rw [reqCmdFire] at hcmd
      split at hcmd
      · rename_i hready
        simp only [reqCmdReady, Bool.and_eq_true] at hready
        simpa using hready.2
      · cases hcmd
    simp [DRAMSideLLC.next, hreplay, hwe, hcmd]

omit h in
theorem idle_next (hs1 : s.s1Valid = false) (hs2 : s.s2Valid = false) (hreplay : s.replayS2 = false)
    (hinit : s.initializing = true) : (s.next i).s1Valid = false ∧ (s.next i).s2Valid = false ∧
      (s.next i).replayS2 = false ∧ s.missAlloc = none := by
  have hwe : s.tagWe = true := by simp [tagWe, hinit]
  simp [DRAMSideLLC.next, reqCmdFire, reqCmdReady, replayFire, missAlloc, hs1, hs2, hreplay, hwe]

theorem TagInv.next {g : LineOutbox c} (hg : RefillInv s g) (hresp : RespOk (s, g) i) :
    TagInv (s.next i) where
  one := h.one.next.1
  idle hinit := by
    have hinit : s.initializing = true := by
      by_contra hready
      have hcount : (s.next i).initCount = s.initCount := by simp [DRAMSideLLC.next, hready]
      rw [initializing, hcount] at hinit
      exact hready hinit
    obtain ⟨hs1, hs2, hreplay, hidle, hnone⟩ := h.idle hinit
    obtain ⟨hs1', hs2', hreplay', halloc⟩ := idle_next (i := i) hs1 hs2 hreplay hinit
    refine ⟨hs1', hs2', hreplay', fun j => ?_, fun way line hholds => ?_⟩
    · by_contra hj
      rcases of_mshr_next hresp (by simpa using hj) with ⟨h₂, -⟩ | ⟨hvalid, -⟩
      · exact absurd (h₂.symm.trans hs2) (by decide)
      · exact absurd (hvalid.symm.trans (hidle j)) (by decide)
    · rcases h.holds_next.mp hholds with ⟨j, htag, -⟩ | ⟨hholds, -⟩
      · exact absurd ((of_tagFire htag).1.symm.trans (hidle j)) (by decide)
      · exact hnone way line hholds
  read := read_next
  snapshot hs2 := h.snapshot_next hs2
  unique way way' line hw hw' := by
    rcases h.holds_next.mp hw with ⟨j, hj, rfl, rfl⟩ | ⟨hw, -⟩ <;>
      rcases h.holds_next.mp hw' with ⟨k, hk, heq, rfl⟩ | ⟨hw', -⟩
    · cases hj.symm.trans hk
      rfl
    · exact absurd hw' (h.absent j way' (of_tagFire hj).1)
    · exact absurd hw (heq ▸ h.absent k way (of_tagFire hk).1)
    · exact h.unique way way' line hw hw'
  absent j way hj hholds := by
    rcases of_mshr_next hresp hj with ⟨hs2, hmiss, -, hm⟩ | ⟨hvalid, htag, hkept⟩
    · rw [hm] at hholds
      rcases h.holds_next.mp hholds with ⟨k, hk, -⟩ | ⟨hholds, -⟩
      · rw [tagFire_eq_none hs2] at hk
        cases hk
      · exact h.not_holds_of_miss hs2 hmiss hholds
    · rw [hkept.addr] at hholds
      rcases h.holds_next.mp hholds with ⟨k, hk, heq, -⟩ | ⟨hholds, -⟩
      · exact htag (hg.sets j k hvalid (of_tagFire hk).1 (congrArg (· % c.sets) heq) ▸ hk)
      · exact h.absent j way hvalid hholds
  victim j hj hdirty := by
    rcases of_mshr_next hresp hj with ⟨hs2, -, -, hm⟩ | ⟨hvalid, htag, hkept⟩
    · rw [hm] at hdirty ⊢
      refine h.holds_next.mpr (.inr ⟨?_, fun k hk => ?_⟩)
      · -- the victim is what the tag array has in the way that is replaced
        have htags := h.snapshot hs2
        have hvalid : (s.s2Tags s.replWay).valid = true := (Bool.and_eq_true_iff.mp hdirty).2
        rw [Holds, victim_mod]
        refine ⟨set_lt (h.ready hs2) _, ?_, ?_⟩
        · rwa [htags] at hvalid
        · rw [victim_div, htags]
          rfl
      · rw [tagFire_eq_none hs2] at hk
        cases hk
    · rw [hkept.oldDirty, Bool.and_eq_true] at hdirty
      have hplace : ((s.next i).mshr.mshr j).victim = (s.mshr.mshr j).victim := by
        rw [MSHR.victim, MSHR.victim, hkept.addr, hkept.oldTag]
      rw [hkept.way, hplace]
      refine h.holds_next.mpr (.inr ⟨h.victim j hvalid hdirty.1, fun k hk hw => ?_⟩)
      rw [victim_mod] at hw
      exact htag (hg.sets j k hvalid (of_tagFire hk).1 hw.1 ▸ hk)

end

/-! ### Where the last version is -/

/-- The version of the line on its way out of `LLCWriteback`, or else in memory. -/
def out (s : DRAMSideLLC c D) (v : LLCVersions c) (line : ℕ) : ℕ :=
  if s.writeback.memCmd = some line then v.writeback else v.memory line

/-- The line is dirty in this way, and its MSHR has not handed it over. -/
def DirtyIn (s : DRAMSideLLC c D) (way : Fin c.ways) (line : ℕ) : Prop :=
  s.Holds way line ∧ (s.tags (line % c.sets) way).dirty = true ∧
    ∀ j, s.mshr.valid j = true → (s.mshr.mshr j).way = way →
      (s.mshr.mshr j).addr % c.sets = line % c.sets → (s.mshr.mshr j).oldDirty = true

/-- The versions next to the cache. -/
structure LineInv (s : DRAMSideLLC c D) (v : LLCVersions c) : Prop where
  array : ∀ way line, s.Holds way line → v.array way (line % c.sets) = v.last line
  asked : ∀ j, s.mshr.valid j = true → (s.mshr.mshr j).requested = true →
    v.refill j = v.last (s.mshr.mshr j).addr
  /-- The last version is in the data array, or at the memory port, or in memory. -/
  current : ∀ line, s.out v line = v.last line ∨ ∃ way, s.DirtyIn way line

theorem memCmd_of_wbCmdFire (h : s.wbCmdFire i = true) :
    s.writeback.memCmd = some s.writeback.addr := by
  simp only [wbCmdFire, Bool.and_eq_true] at h
  obtain ⟨line, hline⟩ := Option.isSome_iff_exists.mp h.1.1
  rw [LLCWriteback.memCmd] at hline ⊢
  split at hline
  · rename_i hcond
    rw [if_pos hcond]
  · cases hline

theorem memCmd_of_idle (h : s.writeback.valid = false) : s.writeback.memCmd = none := by
  simp [LLCWriteback.memCmd, h]

/-- A victim and a write miss go out with the versions they have; the rest stays. -/
theorem out_next : (s.next i).out (s.nextVersions i v) line =
    match s.victimFire with
    | some j =>
      if line = (s.mshr.mshr j).victim then
        v.array (s.mshr.mshr j).way ((s.mshr.mshr j).addr % c.sets)
      else s.out v line
    | none =>
      if s.missWrite ∧ line = s.s2.addr then v.last s.s2.addr + 1 else s.out v line := by
  rw [out, memCmd_next, nextVersions]
  rcases hvictim : s.victimFire with _ | j
  · cases hmiss : s.missWrite with
    | true =>
      have hidle := (of_missWrite hmiss).2.2.1
      simp [out, memCmd_of_idle hidle, (wbFire_of_idle (i := i) hidle).2, eq_comm]
    | false =>
      cases hfire : s.wbCmdFire i with
      | true => simp [out, memCmd_of_wbCmdFire hfire, eq_comm]
      | false => simp [out]
  · have hidle := (of_victimFire hvictim).1
    simp [out, memCmd_of_idle hidle, (wbFire_of_idle (i := i) hidle).2, eq_comm]

theorem last_next (hj : s.mshr.valid j = true)
    (hset : line % c.sets = (s.mshr.mshr j).addr % c.sets) :
    (s.nextVersions i v).last line = v.last line := by
  refine if_neg fun ⟨hw, hline⟩ => ?_
  rcases Bool.or_eq_true_iff.mp hw with hw | hw
  · exact (of_hitReq (hitReq_of_hitWrite hw)).2.2 j hj (hline ▸ hset)
  · exact (of_missReq hw).2 j hj (hline ▸ hset)

theorem LineInv.array_next (h : LineInv s v) (ht : TagInv s) {g : LineOutbox c}
    (hg : RefillInv s g) (hw : (s.next i).Holds way line) :
    (s.nextVersions i v).array way (line % c.sets) = (s.nextVersions i v).last line := by
  rcases ht.holds_next.mp hw with ⟨j, htag, rfl, rfl⟩ | ⟨hold, hplace⟩
  · -- the line of a miss comes with the version that memory had
    obtain ⟨hvalid, hrefilled⟩ := of_tagFire htag
    rw [last_next hvalid rfl, ← h.asked j hvalid (hg.requested j hvalid hrefilled)]
    simp [nextVersions, htag]
  · by_cases hwrite : s.hitWrite = true ∧ line = s.s2.addr
    · obtain ⟨hwrite, rfl⟩ := hwrite
      obtain ⟨hs2, hhit, -⟩ := of_hitReq (hitReq_of_hitWrite hwrite)
      obtain rfl := ht.unique _ _ _ hold (ht.holds_of_hit hs2 hhit)
      simp [nextVersions, tagFire_eq_none hs2, writes, hwrite]
    · have hlast : (s.nextVersions i v).last line = v.last line := by
        refine if_neg fun ⟨hw, hline⟩ => ?_
        have hmiss := (Bool.or_eq_true_iff.mp hw).resolve_left fun hw => hwrite ⟨hw, hline⟩
        exact ht.not_holds_of_miss (of_missWrite hmiss).1 (of_missReq hmiss).1 (hline ▸ hold)
      rw [hlast, ← h.array way line hold]
      rcases htag : s.tagFire with _ | j
      · simp only [nextVersions, htag]
        refine if_neg fun ⟨hw, hway, hset⟩ => hwrite ⟨hw, ?_⟩
        obtain ⟨hs2, hhit, -⟩ := of_hitReq (hitReq_of_hitWrite hw)
        exact hold.line_eq (hway ▸ ht.holds_of_hit hs2 hhit) hset
      · simp only [nextVersions, htag]
        exact if_neg fun ⟨hway, hset⟩ => hplace j htag ⟨hset, hway⟩

/-- What memory reads for a refill is the last version, if nothing is overtaken. -/
theorem LineInv.asked_next (h : LineInv s v) (ht : TagInv s) {g : LineOutbox c}
    (hresp : RespOk (s, g) i) (hno : NoOvertake (s, g) i)
    (hj : (s.next i).mshr.valid j = true) (hreq : ((s.next i).mshr.mshr j).requested = true) :
    (s.nextVersions i v).refill j =
      (s.nextVersions i v).last ((s.next i).mshr.mshr j).addr := by
  rcases of_mshr_next hresp hj with ⟨-, -, -, hm⟩ | ⟨hvalid, -, hkept⟩
  · rw [hm] at hreq
    cases hreq
  · rw [hkept.addr, last_next hvalid rfl]
    cases hask : s.asks i j with
    | true =>
      obtain ⟨hready, hrefill⟩ := Bool.and_eq_true_iff.mp hask
      have hout : s.out v (s.mshr.mshr j).addr = v.last (s.mshr.mshr j).addr :=
        (h.current _).resolve_right fun ⟨way, hdirty⟩ => ht.absent j way hvalid hdirty.1
      rw [← hout, out, if_neg (hno j (of_decide_eq_true hrefill) hready)]
      simp [nextVersions, hask]
    | false =>
      rw [hkept.requested, hask, Bool.or_false] at hreq
      rw [← h.asked j hvalid hreq]
      simp [nextVersions, hask]

/-- A line that is dirty in the data array stays there, or goes out with its last version. -/
theorem LineInv.dirty_next (h : LineInv s v) (ht : TagInv s) {g : LineOutbox c}
    (hg : RefillInv s g) (hresp : RespOk (s, g) i) (hdirty : s.DirtyIn way line) :
    (s.next i).out (s.nextVersions i v) line = (s.nextVersions i v).last line ∨
      (s.next i).DirtyIn way line := by
  obtain ⟨hold, htags, hmshr⟩ := hdirty
  by_cases hleave : ∃ j, s.victimFire = some j ∧ (s.mshr.mshr j).way = way ∧
      (s.mshr.mshr j).addr % c.sets = line % c.sets
  · obtain ⟨j, hvictim, rfl, hset⟩ := hleave
    obtain ⟨hvalid, hold'⟩ := of_writebackFire hvictim
    have hline := hold.line_eq (ht.victim j hvalid hold') ((victim_mod _).trans hset).symm
    refine .inl ?_
    rw [out_next, hvictim, last_next hvalid hset.symm, ← h.array _ line hold]
    simp [← hline, hset]
  · have hstay : ∀ j, s.tagFire = some j →
        ¬(line % c.sets = (s.mshr.mshr j).addr % c.sets ∧ way = (s.mshr.mshr j).way) := by
      rintro j htag ⟨hset, hway⟩
      -- the victim has left when the line comes
      have hvalid := (of_tagFire htag).1
      exact hg.tagFire_ne (hmshr j hvalid hway.symm hset.symm) htag
    have hnew := ht.holds_next (i := i).mpr (.inr ⟨hold, hstay⟩)
    refine .inr ⟨hnew, ht.dirty_next hold hnew htags fun j htag heq => ?_, fun j hj hway hset => ?_⟩
    · exact ht.absent j way (of_tagFire htag).1 (heq ▸ hold)
    · rcases of_mshr_next hresp hj with ⟨hs2, -, -, hm⟩ | ⟨hvalid, -, hkept⟩
      · rw [hm] at hway hset ⊢
        have hway : s.replWay = way := hway
        have hset : s.s2.addr % c.sets = line % c.sets := hset
        show ((s.s2Tags s.replWay).dirty && (s.s2Tags s.replWay).valid) = true
        rw [ht.snapshot hs2, hway, hset, htags, hold.2.1]
        rfl
      · rw [hkept.way] at hway
        rw [hkept.addr] at hset
        rw [hkept.oldDirty, hmshr j hvalid hway hset,
          decide_eq_false fun hvictim => hleave ⟨j, hvictim, hway, hset⟩]
        rfl

theorem LineInv.current_next (h : LineInv s v) (ht : TagInv s) {g : LineOutbox c}
    (hg : RefillInv s g) (hresp : RespOk (s, g) i) (line : ℕ) :
    (s.next i).out (s.nextVersions i v) line = (s.nextVersions i v).last line ∨
      ∃ way, (s.next i).DirtyIn way line := by
  rcases h.current line with hout | ⟨way, hdirty⟩
  · by_cases hwrite : s.writes = true ∧ line = s.s2.addr
    · obtain ⟨hw, rfl⟩ := hwrite
      have hlast : (s.nextVersions i v).last s.s2.addr = v.last s.s2.addr + 1 := by
        simp [nextVersions, hw]
      rcases Bool.or_eq_true_iff.mp hw with hhitw | hmiss
      · -- a write hit: the line is dirty now, and no MSHR works on its set
        obtain ⟨hs2, hhit, hsets⟩ := of_hitReq (hitReq_of_hitWrite hhitw)
        refine .inr ⟨s.s2HitWay, ht.holds_next.mpr (.inr ⟨ht.holds_of_hit hs2 hhit, ?_⟩),
          ht.dirty_of_hitWrite hhitw, fun j hj _ hset => ?_⟩
        · rw [tagFire_eq_none hs2]
          rintro j ⟨⟩
        · rcases of_mshr_next hresp hj with ⟨-, hmiss, -⟩ | ⟨hvalid, -, hkept⟩
          · exact absurd (hhit.symm.trans hmiss) (by decide)
          · rw [hkept.addr] at hset
            exact absurd hset.symm (hsets j hvalid)
      · have hvictim : s.victimFire = none := by
          rcases hvictim : s.victimFire with _ | j
          · rfl
          · exact absurd ((of_victimFire hvictim).2.1.symm.trans hmiss) (by decide)
        rw [out_next, hvictim, hlast]
        simp [hmiss]
    · have hlast : (s.nextVersions i v).last line = v.last line := if_neg hwrite
      rw [out_next, hlast]
      rcases hvictim : s.victimFire with _ | j
      · refine .inl ((if_neg fun ⟨hmiss, hline⟩ => hwrite ⟨?_, hline⟩).trans hout)
        rw [writes, hmiss, Bool.or_true]
      · obtain ⟨hvalid, hdirty⟩ := of_writebackFire hvictim
        left
        by_cases hline : line = (s.mshr.mshr j).victim
        · subst hline
          rw [← h.array _ _ (ht.victim j hvalid hdirty), victim_mod]
          simp
        · simpa [hline] using hout
  · exact (h.dirty_next ht hg hresp hdirty).imp_right fun hdirty => ⟨way, hdirty⟩

/-- Both histories after a cycle. -/
def nextBoth (s : DRAMSideLLC c D) (i : LLCInput c D) (x : LineOutbox c × LLCVersions c) :
    LineOutbox c × LLCVersions c := (s.nextOutbox i x.1, s.nextVersions i x.2)

/-- Memory answers only what was asked for, and no write is overtaken. -/
def CycleOk (x : DRAMSideLLC c D × LineOutbox c × LLCVersions c) (i : LLCInput c D) : Prop :=
  RespOk (x.1, x.2.1) i ∧ NoOvertake (x.1, x.2.1) i

/-- The runs in which that is so, next to the versions. -/
def versionMachine (c : LLCConf) (D : Type) :
    Machine (DRAMSideLLC c D × LineOutbox c × LLCVersions c) (LLCInput c D) :=
  ((machine c D).observe (.empty, .zero) nextBoth).restrict CycleOk

theorem TagInv.of_isReset (h : s.IsReset) : TagInv s where
  one := .idle h.s1Valid h.s2Valid h.replayS2
  idle _ := ⟨h.s1Valid, h.s2Valid, h.replayS2, h.mshr, fun way line hw => by
    rw [Holds, h.initCount] at hw
    exact Nat.not_lt_zero _ hw.1⟩
  read h₁ := absurd (h₁.symm.trans h.s1Valid) (by decide)
  snapshot h₂ := absurd (h₂.symm.trans h.s2Valid) (by decide)
  unique _ _ _ hw := by
    rw [Holds, h.initCount] at hw
    exact absurd hw.1 (Nat.not_lt_zero _)
  absent j _ hj := absurd (hj.symm.trans (h.mshr j)) (by decide)
  victim j hj := absurd (hj.symm.trans (h.mshr j)) (by decide)

theorem LineInv.of_isReset (h : s.IsReset) : LineInv s .zero where
  array _ _ hw := by
    rw [Holds, h.initCount] at hw
    exact absurd hw.1 (Nat.not_lt_zero _)
  asked j hj := absurd (hj.symm.trans (h.mshr j)) (by decide)
  current _ := .inl (by simp [out, LLCVersions.zero])

theorem reachable_versions {x : DRAMSideLLC c D × LineOutbox c × LLCVersions c}
    (h : (versionMachine c D).Reachable x) :
    RefillInv x.1 x.2.1 ∧ TagInv x.1 ∧ LineInv x.1 x.2.2 := by
  refine Machine.invariant (I := fun x : DRAMSideLLC c D × LineOutbox c × LLCVersions c =>
    RefillInv x.1 x.2.1 ∧ TagInv x.1 ∧ LineInv x.1 x.2.2) ?_ ?_ x h
  · rintro ⟨s, x⟩ ⟨hreset, rfl⟩
    exact ⟨.of_isReset hreset, .of_isReset hreset, .of_isReset hreset⟩
  · rintro ⟨s, g, v⟩ i ⟨s', x'⟩ _ ⟨hg, ht, h⟩ ⟨⟨hresp, hno⟩, rfl, rfl⟩
    exact ⟨hg.next hresp, ht.next hg hresp, fun _ _ hw => h.array_next ht hg hw,
      fun _ hj hreq => h.asked_next ht hresp hno hj hreq, h.current_next ht hg hresp⟩

/-- **Reads return the last write.** While memory answers only refills that were asked for:

* a refill is sent after all earlier writes of its line exactly if it does not overtake the one at
  the memory port
* in a run in which none does, every read, hit or miss, returns the last version -/
theorem reads_last_write (c : LLCConf) (D : Type) :
    (∀ s, ((refillMachine c D).restrict RespOk).Reachable s →
      ∀ i, RefillAfterWrites s i ↔ NoOvertake s i) ∧
    ∀ s g v, (versionMachine c D).Reachable (s, g, v) →
      ReadsLast s v ∧ ∀ i, NoOvertake (s, g) i → RefillAfterWrites (s, g) i := by
  refine ⟨refillAfterWrites_iff_noOvertake c D, fun s g v hs => ?_⟩
  obtain ⟨hg, ht, h⟩ := reachable_versions hs
  refine ⟨⟨fun hread => ?_, fun j htag => ?_⟩, fun i => hg.refillAfterWrites_iff.mpr⟩
  · simp only [hitRead, Bool.and_eq_true] at hread
    obtain ⟨hs2, hhit, -⟩ := of_hitReq hread.1.1
    exact h.array _ _ (ht.holds_of_hit hs2 hhit)
  · obtain ⟨hvalid, hrefilled⟩ := of_tagFire htag
    exact h.asked j hvalid (hg.requested j hvalid hrefilled)

instance (x : DRAMSideLLC c D × LineOutbox c) (i : LLCInput c D) : Decidable (RespOk x i) :=
  decidable_of_iff (∀ r ∈ i.memResp, x.1.mshr.valid r.1 = true ∧
    (x.1.mshr.mshr r.1).requested = true ∧ (x.1.mshr.mshr r.1).refilled = false)
    ⟨fun h j d hr => h (j, d) hr, fun h r hr => h r.1 r.2 hr⟩

instance (x : DRAMSideLLC c D × LineOutbox c) (i : LLCInput c D) : Decidable (NoOvertake x i) :=
  decidable_of_iff (∀ j ∈ x.1.refillReq, i.memCmdReady = true →
    x.1.writeback.memCmd ≠ some (x.1.mshr.mshr j).addr) .rfl

instance (x : DRAMSideLLC c D × LineOutbox c × LLCVersions c) (i : LLCInput c D) :
    Decidable (CycleOk x i) := inferInstanceAs (Decidable (_ ∧ _))

/-- Line `0` was written and has gone out; now it is missed. -/
def missAgain : List (LLCInput .small Bool) :=
  dirtyMiss ++ [answer, answer, ready, send false 0, ready, ready]

/-- And memory answers. -/
def answered : List (LLCInput .small Bool) := missAgain ++ [ready, answer, answer]

def versionsAfter (inputs : List (LLCInput .small Bool)) :
    DRAMSideLLC .small Bool × LineOutbox .small × LLCVersions .small :=
  Machine.cycles next nextBoth inputs (reset false, .empty, .zero)

def refillsAfter (inputs : List (LLCInput .small Bool)) :
    DRAMSideLLC .small Bool × LineOutbox .small :=
  Machine.cycles next nextOutbox inputs (reset false, .empty)

/-- The refill of line `0` goes after its write, and the read of it returns that write. -/
theorem reads_last_write_dirty :
    (refillsAfter missAgain).1.refillReq = some second ∧
    (refillsAfter missAgain).2.sent = [0] ∧
    RefillAfterWrites (refillsAfter missAgain) ready ∧
    (versionsAfter answered).1.tagFire = some second ∧
    (versionsAfter answered).2.2.refill second = 1 := by
  have hmiss : ((refillMachine .small Bool).restrict RespOk).Reachable (refillsAfter missAgain) :=
    Machine.reachable_restrict_cycles (refillMachine_reset false) missAgain (by decide +kernel)
  have hstart : (versionMachine .small Bool).Reachable (reset false, .empty, .zero) :=
    .init ⟨isReset_reset false, rfl⟩
  have hdone : (versionMachine .small Bool).Reachable (versionsAfter answered) :=
    Machine.reachable_restrict_cycles hstart answered (by decide +kernel)
  have htag : (versionsAfter answered).1.tagFire = some second := by decide +kernel
  have hlast : (versionsAfter answered).2.2.last
      ((versionsAfter answered).1.mshr.mshr second).addr = 1 := by decide +kernel
  have hrun : ∀ x, (versionMachine .small Bool).Reachable x → ReadsLast x.1 x.2.2 := fun x hx =>
    ((reads_last_write .small Bool).2 x.1 x.2.1 x.2.2 hx).1
  exact ⟨by decide +kernel, by decide +kernel,
    ((reads_last_write .small Bool).1 _ hmiss ready).mpr (by decide +kernel), htag,
    ((hrun _ hdone).2 second htag).trans hlast⟩

end DRAMSideLLC

end RiscvSoc
