import RiscvSoc.Uncore.LLC

/-!
# One cycle of the last-level cache

What a cycle can do to each unit of `DRAMSideLLC`, said once: the registers of `LLCWriteback`, of
`LLCData` and of an MSHR afterwards, and which unit the command in `s2` and the victims of the
MSHRs go to. Later modules build on these and do not unfold the cycle again.
-/

namespace RiscvSoc

open LLCWriteback LLCMSHRFile

variable {c : LLCConf} {D : Type}

/-! ### `LLCMSHRFile` -/

namespace LLCMSHRFile

variable {f : LLCMSHRFile c} {alloc : Option (MemReqCmd × Fin c.ways × LLCMeta)} {memFire : Bool}
  {resp : Option (Fin c.outstanding)} {dataReady tagReady : Bool} {j k : Fin c.outstanding}

theorem valid_of_freeId (h : f.freeId = some j) : f.valid j = false := by
  simpa using priorityEncoder_some h

theorem of_memReq (h : f.memReq dataReady = some j) :
    f.valid j = true ∧ (f.mshr j).oldDirty = false ∧ (f.mshr j).requested = false := by
  rw [memReq] at h
  split at h
  · have hreq := priorityEncoder_some h
    simp only [Bool.and_eq_true, Bool.not_eq_true'] at hreq
    exact ⟨hreq.1.1.1, hreq.1.1.2, hreq.2⟩
  · cases h

theorem of_tagFire (h : f.tagFire dataReady tagReady = some j) :
    f.valid j = true ∧ (f.mshr j).refilled = true := by
  rw [tagFire] at h
  split at h
  · exact Bool.and_eq_true_iff.mp (priorityEncoder_some h)
  · cases h

theorem of_writebackFire (h : f.writebackFire dataReady = some j) :
    f.valid j = true ∧ (f.mshr j).oldDirty = true := by
  rw [writebackFire] at h
  split at h
  · exact Bool.and_eq_true_iff.mp (priorityEncoder_some h)
  · cases h

theorem of_cpuReady {addr : ℕ} (h : f.cpuReady addr = true) : f.freeId.isSome = true ∧
    ∀ j, f.valid j = true → addr % c.sets ≠ (f.mshr j).addr % c.sets := by
  rw [cpuReady, Bool.and_eq_true, Bool.not_eq_true'] at h
  refine ⟨h.2, fun j hvalid heq => ?_⟩
  have hconflict : f.conflict addr = true := orR_eq_true.mpr ⟨j, by simp [hvalid, heq]⟩
  rw [h.1] at hconflict
  cases hconflict

variable {f' : LLCMSHRFile c}

theorem next_valid (hf : f' = f.next alloc memFire resp dataReady tagReady) : f'.valid j = true ↔
    f.tagFire dataReady tagReady ≠ some j ∧
      (alloc.isSome = true ∧ f.freeId = some j ∨ f.valid j = true) := by
  subst hf
  by_cases htag : f.tagFire dataReady tagReady = some j
  · simp [next, htag]
  · by_cases hnew : alloc.isSome = true ∧ f.freeId = some j
    · simp [next, htag, hnew]
    · simp [next, htag, hnew]

end LLCMSHRFile

/-! ### `LLCWriteback` -/

namespace LLCWriteback

variable {w : LLCWriteback} {req : Fin 2 → Option ℕ} {dataFire cmdFire : Bool}

theorem next_of_idle (hw : w.valid = false) :
    w.next c req false false = match nextReq req with
      | some (who, addr) => ⟨true, who, addr, false, false, w.count⟩
      | none => w := by
  obtain ⟨valid, who, addr, cmdSent, dataSent, count⟩ := w
  cases hw
  rcases h : nextReq req with _ | ⟨who', addr'⟩ <;> simp [next, h]

theorem next_of_valid (hw : w.valid = true) :
    w.next c req dataFire cmdFire =
      { w with
        valid := !(w.cmdSent && (w.dataSent || dataFire && decide (w.count = c.refillCycles - 1)))
        cmdSent := w.cmdSent || cmdFire
        dataSent := w.dataSent || dataFire && decide (w.count = c.refillCycles - 1)
        count := if dataFire then (w.count + 1) % c.refillCycles else w.count } := by
  obtain ⟨valid, who, addr, cmdSent, dataSent, count⟩ := w
  cases hw
  rcases h : nextReq req with _ | ⟨_, _⟩ <;> by_cases hlast : count = c.refillCycles - 1 <;>
    cases dataFire <;> cases cmdFire <;> cases cmdSent <;> cases dataSent <;>
    simp [next, h, hlast]

end LLCWriteback

/-! ### `LLCData` -/

namespace LLCData

variable {u v : LLCData c D} {step : Bool} {req : Option (LLCDataReq c)} {wbReady : Bool}
  {reqData : Option D} {memResp : Option ((Fin c.ways × ℕ) × D)} {respReady wbDataReady : Bool}

/-- The counter moves: the request being served uses the array's port. -/
def counting (u : LLCData c D) (req : Option (LLCDataReq c)) (wbReady : Bool) (reqData : Option D)
    (memResp : Option ((Fin c.ways × ℕ) × D)) : Bool :=
  (u.arrayIn req wbReady reqData memResp).isSome && memResp.isNone

theorem counting_eq : u.counting req wbReady reqData memResp = (memResp.isNone &&
    ((u.current req wbReady).any fun r => if r.rw then reqData.isSome else u.qReady)) := by
  rcases memResp with _ | _
  · rcases hcur : u.current req wbReady with _ | r
    · simp [counting, arrayIn, hcur]
    · cases hrw : r.rw <;> cases hq : u.qReady <;> simp [counting, arrayIn, hcur, hrw, hq]
  · simp [counting]

/-- What the counter and the request register hold after a cycle. -/
theorem next_eq (hv : v = u.next req wbReady reqData memResp respReady wbDataReady)
    (hstep : step = u.counting req wbReady reqData memResp) :
    v.valid = ((u.current req wbReady).isSome &&
        !(step && u.valid && decide (u.count = c.refillCycles - 1))) ∧
      v.req = (u.current req wbReady).getD u.req ∧
      v.count = if step then (u.count + 1) % c.refillCycles else u.count := by
  subst hv hstep
  rw [counting]
  cases hv : u.valid with
  | true =>
    have hnone : req.filter (fun r => u.reqReady r.isWriteback wbReady) = none := by
      simp [reqReady, hv]
    have hcur : u.current req wbReady = some u.req := if_pos hv
    refine ⟨?_, by rw [hcur, next, hnone]; rfl, rfl⟩
    rw [hcur, next, hnone]
    cases h : (u.arrayIn req wbReady reqData memResp).isSome && memResp.isNone <;> simp [hv]
  | false =>
    have hcur : u.current req wbReady = req.filter fun r => u.reqReady r.isWriteback wbReady :=
      if_neg (by simp [hv])
    refine ⟨?_, by rw [hcur]; rfl, rfl⟩
    rw [hcur, next]
    simp [hv]

end LLCData

namespace DRAMSideLLC

variable {s : DRAMSideLLC c D} {i : LLCInput c D}

/-! ### Where a command in `s2` goes -/

/-- A write hit reaches `LLCData`. -/
def hitWrite (s : DRAMSideLLC c D) : Bool := s.hitReq.isSome && s.hitReady && s.s2.rw

/-- A write miss reaches `LLCWriteback`. -/
def missWrite (s : DRAMSideLLC c D) : Bool :=
  s.missReq.isSome && s.writeback.reqReady s.wbReq 1

variable {r : LLCDataReq c}

theorem rw_of_mshrData (h : s.mshrData = some r) : r.rw = false := by
  rw [mshrData, LLCMSHRFile.data] at h
  split at h
  · split at h
    · cases h
      rfl
    · cases h
  · obtain ⟨j, _, rfl⟩ := Option.map_eq_some_iff.mp h
    rfl

/-- Only a hit of a write command brings `LLCData` a write. -/
theorem dataReq_eq_of_rw (h : s.dataReq = some r) (hrw : r.rw = true) :
    s.mshrData = none ∧ s.hitReq = some r := by
  rcases hm : s.mshrData with _ | r'
  · refine ⟨rfl, ?_⟩
    rw [dataReq, hm] at h
    exact h
  · rw [dataReq, hm] at h
    cases h
    rw [rw_of_mshrData hm] at hrw
    cases hrw

theorem hitReq_eq (h : s.hitReq = some r) :
    (s.s2Valid = true ∧ s.s2Hit = true ∧ s.mshrReady = true) ∧ r = ⟨s.s2, s.s2HitWay, false⟩ := by
  rw [hitReq] at h
  split at h
  · cases h
    simp_all
  · cases h

theorem isWriteback_of_rw (h : s.dataReq = some r) (hrw : r.rw = true) :
    r.isWriteback = false := by
  rw [(hitReq_eq (dataReq_eq_of_rw h hrw).2).2]

/-- A write hit that reaches `LLCData` is the request it serves from this cycle on. -/
theorem of_hitWrite (h : s.hitWrite = true) : s.s2Valid = true ∧ s.s2.rw = true ∧
    s.data.valid = false ∧ s.missWrite = false ∧
    s.data.current s.dataReq s.victimReady = some ⟨s.s2, s.s2HitWay, false⟩ := by
  simp only [hitWrite, hitReady, Bool.and_eq_true] at h
  obtain ⟨⟨hsome, hready, hnone⟩, hrw⟩ := h
  obtain ⟨r, hr⟩ := Option.isSome_iff_exists.mp hsome
  obtain ⟨⟨hvalid, hhit, _⟩, rfl⟩ := hitReq_eq hr
  have hdata : s.dataReq = some ⟨s.s2, s.s2HitWay, false⟩ := by
    rw [dataReq, Option.isNone_iff_eq_none.mp hnone, hr]
    rfl
  rw [dataReady, hdata] at hready
  have hidle : s.data.valid = false := by
    simpa [LLCData.reqReady] using hready
  refine ⟨hvalid, hrw, hidle, ?_, ?_⟩
  · simp [missWrite, missReq, hhit]
  · simp [LLCData.current, hidle, hdata, LLCData.reqReady]

/-- A write at the port of an idle `LLCData` is a write hit. -/
theorem hitWrite_of_current (hidle : s.data.valid = false)
    (h : s.data.current s.dataReq s.victimReady = some r) (hrw : r.rw = true) :
    s.hitWrite = true := by
  rw [LLCData.current, if_neg (by simp [hidle]), Option.filter_eq_some_iff] at h
  obtain ⟨hdata, hready⟩ := h
  obtain ⟨hnone, hhit⟩ := dataReq_eq_of_rw hdata hrw
  obtain ⟨_, rfl⟩ := hitReq_eq hhit
  have hs2 : s.s2.rw = true := hrw
  simp [hitWrite, hhit, hitReady, hnone, dataReady, hdata, hs2, LLCData.reqReady, hidle]

/-- A write miss that reaches `LLCWriteback` is the request it takes. -/
theorem of_missWrite (h : s.missWrite = true) : s.s2Valid = true ∧ s.s2.rw = true ∧
    s.writeback.valid = false ∧ nextReq s.wbReq = some (1, s.s2.addr) := by
  simp only [missWrite, Bool.and_eq_true] at h
  obtain ⟨hsome, hready⟩ := h
  have hidle : s.writeback.valid = false := by
    simp only [LLCWriteback.reqReady, Bool.and_eq_true] at hready
    simpa using hready.1
  have hzero : s.wbReq 0 = none := by
    simpa [LLCWriteback.reqReady, hidle] using hready
  rw [missReq] at hsome
  split at hsome
  · rename_i hcond
    have hone : s.wbReq 1 = some s.s2.addr := if_pos hcond
    simp only [Bool.and_eq_true] at hcond
    refine ⟨hcond.1.1.1, hcond.1.2, hidle, ?_⟩
    simp [nextReq, hzero, hone]
  · cases hsome

/-- What an idle `LLCWriteback` takes for the CPU is a write miss. -/
theorem missWrite_of_nextReq {addr : ℕ} (hidle : s.writeback.valid = false)
    (h : nextReq s.wbReq = some (1, addr)) : s.missWrite = true := by
  rw [nextReq] at h
  rcases hzero : s.wbReq 0 with _ | addr₀
  · rw [hzero] at h
    obtain ⟨addr₁, hone, _⟩ := Option.map_eq_some_iff.mp h
    have hmiss : s.missReq = some addr₁ := hone
    simp [missWrite, hmiss, LLCWriteback.reqReady, hidle, hzero]
  · rw [hzero] at h
    cases h

/-- A write command leaves `s2` exactly when it reaches a unit. -/
theorem s3Rdy_of_write (hvalid : s.s2Valid = true) (hrw : s.s2.rw = true) :
    s.s3Rdy = (s.hitWrite || s.missWrite) := by
  cases hhit : s.s2Hit <;> cases hready : s.mshrReady <;>
    simp [s3Rdy, hitWrite, missWrite, hitReq, missReq, hvalid, hrw, hhit, hready]

/-! ### Where the victims go -/

/-- The MSHR whose victim reaches `LLCWriteback`. -/
def victimFire (s : DRAMSideLLC c D) : Option (Fin c.outstanding) :=
  s.mshr.writebackFire s.dataReady

/-- A victim that reaches `LLCWriteback` is the request it takes. -/
theorem of_victimFire {j : Fin c.outstanding} (h : s.victimFire = some j) :
    s.writeback.valid = false ∧ s.missWrite = false ∧
      nextReq s.wbReq = some (0, (s.mshr.mshr j).victim) := by
  rw [victimFire, LLCMSHRFile.writebackFire] at h
  split at h
  · rename_i hfire
    obtain ⟨hready, hnone⟩ := Bool.and_eq_true_iff.mp hfire
    have hdata : s.mshrData =
        some ⟨⟨false, (s.mshr.mshr j).victim, 0⟩, (s.mshr.mshr j).way, true⟩ := by
      rw [mshrData, LLCMSHRFile.data, Option.isNone_iff_eq_none.mp hnone, h]
      rfl
    have hreq : s.dataReq = s.mshrData := by rw [dataReq, hdata]; rfl
    have hidle : s.writeback.valid = false := by
      rw [dataReady, hreq, hdata, LLCData.reqReady, victimReady] at hready
      simpa using (Bool.and_eq_true_iff.mp hready).2
    have hvictim : s.victimReq = some (s.mshr.mshr j).victim := by
      rw [victimReq, hreq, hdata]
      simp [hready]
    have hzero : s.wbReq 0 = some (s.mshr.mshr j).victim := hvictim
    refine ⟨hidle, ?_, by simp [nextReq, hzero]⟩
    simp [missWrite, LLCWriteback.reqReady, hzero]
  · cases h

/-- What an idle `LLCWriteback` takes from the data array is a victim. -/
theorem victimFire_of_nextReq {addr : ℕ} (h : nextReq s.wbReq = some (0, addr)) :
    ∃ j, s.victimFire = some j := by
  rcases hzero : s.wbReq 0 with _ | addr₀
  · rw [nextReq, hzero] at h
    obtain ⟨_, _, heq⟩ := Option.map_eq_some_iff.mp h
    cases heq
  · have hvictim : s.victimReq = some addr₀ := hzero
    obtain ⟨r, hr, _⟩ := Option.map_eq_some_iff.mp hvictim
    obtain ⟨hreq, hready⟩ := Option.filter_eq_some_iff.mp hr
    obtain ⟨hwb, hready⟩ := Bool.and_eq_true_iff.mp hready
    rcases hm : s.mshrData with _ | r'
    · rw [dataReq, hm] at hreq
      rw [(hitReq_eq hreq).2] at hwb
      cases hwb
    · rw [dataReq, hm] at hreq
      cases hreq
      rw [mshrData, LLCMSHRFile.data] at hm
      split at hm
      · split at hm
        · cases hm
          cases hwb
        · cases hm
      · rename_i hnone
        obtain ⟨j, hj, _⟩ := Option.map_eq_some_iff.mp hm
        exact ⟨j, by rw [victimFire, LLCMSHRFile.writebackFire, hready, hnone]; exact hj⟩

/-! ### The MSHRs after a cycle -/

variable {j k : Fin c.outstanding} {a : MemReqCmd × Fin c.ways × LLCMeta}

/-- The miss that is allocated to this MSHR. -/
def allocTo (s : DRAMSideLLC c D) (j : Fin c.outstanding) :
    Option (MemReqCmd × Fin c.ways × LLCMeta) :=
  if s.mshr.freeId = some j then s.missAlloc else none

/-- The MSHR asks for its line and memory takes the read. -/
def asks (s : DRAMSideLLC c D) (i : LLCInput c D) (j : Fin c.outstanding) : Bool :=
  i.memCmdReady && decide (s.refillReq = some j)

/-- A beat comes back for the MSHR. -/
def answers (i : LLCInput c D) (j : Fin c.outstanding) : Bool :=
  decide (i.memResp.map (·.1) = some j)

/-- A read miss finds a free MSHR, and no other one in its set. -/
theorem of_missAlloc (h : s.missAlloc = some a) :
    a = (s.s2, s.replWay, s.s2Tags s.replWay) ∧ (∃ j, s.mshr.freeId = some j) ∧
      ∀ k, s.mshr.valid k = true → s.s2.addr % c.sets ≠ (s.mshr.mshr k).addr % c.sets := by
  rw [missAlloc] at h
  split at h
  · rename_i hcond
    obtain ⟨hfree, hsets⟩ := of_cpuReady (Bool.and_eq_true_iff.mp hcond).2
    exact ⟨(Option.some.inj h).symm, Option.isSome_iff_exists.mp hfree, hsets⟩
  · cases h

theorem mshr_of_alloc (ha : s.allocTo j = some a) (hresp : answers i j = false) :
    (s.next i).mshr.mshr j = LLCMSHRFile.MSHR.allocate (s.mshr.mshr j) a.1 a.2.1 a.2.2 := by
  rw [allocTo] at ha
  split at ha
  · rename_i hfree
    have hidle := valid_of_freeId hfree
    have hreq : s.mshr.memReq s.dataReady ≠ some j := fun h => by
      simp [(of_memReq h).1] at hidle
    have hwb : s.mshr.writebackFire s.dataReady ≠ some j := fun h => by
      simp [(of_writebackFire h).1] at hidle
    have hno : i.memResp.map (·.1) ≠ some j := of_decide_eq_false hresp
    obtain ⟨cmd, way, repl⟩ := a
    show LLCMSHRFile.MSHR.update (s.mshr.mshr j) (s.mshr.allocated s.missAlloc j) _ _ _ _ = _
    rw [ha, allocated, if_pos hfree, decide_eq_false hreq, decide_eq_false hwb,
      decide_eq_false hno, Bool.and_false]
    cases (s.mshr.mshr j).wbBusy && s.dataReady <;> rfl
  · cases ha

/-- An MSHR that keeps its miss, in full. -/
structure MissKept (s : DRAMSideLLC c D) (i : LLCInput c D) (j : Fin c.outstanding) : Prop where
  addr : ((s.next i).mshr.mshr j).addr = (s.mshr.mshr j).addr
  way : ((s.next i).mshr.mshr j).way = (s.mshr.mshr j).way
  tag : ((s.next i).mshr.mshr j).tag = (s.mshr.mshr j).tag
  oldTag : ((s.next i).mshr.mshr j).oldTag = (s.mshr.mshr j).oldTag
  oldDirty : ((s.next i).mshr.mshr j).oldDirty =
    ((s.mshr.mshr j).oldDirty && !decide (s.victimFire = some j))
  wbBusy : ((s.next i).mshr.mshr j).wbBusy =
    if (s.mshr.mshr j).wbBusy then !s.dataReady else decide (s.victimFire = some j)
  requested : ((s.next i).mshr.mshr j).requested = ((s.mshr.mshr j).requested || s.asks i j)
  refillCount : ((s.next i).mshr.mshr j).refillCount =
    if answers i j then ((s.mshr.mshr j).refillCount + 1) % c.refillCycles
    else (s.mshr.mshr j).refillCount
  refilled : ((s.next i).mshr.mshr j).refilled = ((s.mshr.mshr j).refilled ||
    answers i j && decide ((s.mshr.mshr j).refillCount = c.refillCycles - 1))

theorem missKept (ha : s.allocTo j = none) : s.MissKept i j := by
  have hold : s.mshr.allocated s.missAlloc j = s.mshr.mshr j := by
    rw [allocTo] at ha
    rcases halloc : s.missAlloc with _ | ⟨cmd, way, repl⟩
    · rfl
    · refine if_neg fun hfree => ?_
      rw [if_pos hfree, halloc] at ha
      cases ha
  have hm : (s.next i).mshr.mshr j = LLCMSHRFile.MSHR.update (s.mshr.mshr j) (s.mshr.mshr j)
      (s.asks i j) (answers i j) (decide (s.victimFire = some j))
      ((s.mshr.mshr j).wbBusy && s.dataReady) :=
    congrArg (fun m => LLCMSHRFile.MSHR.update (s.mshr.mshr j) m _ _ _ _) hold
  constructor
  all_goals
    rw [hm, LLCMSHRFile.MSHR.update]
    cases s.asks i j <;> cases answers i j <;> cases decide (s.victimFire = some j) <;>
      cases hbusy : (s.mshr.mshr j).wbBusy <;> cases s.dataReady <;> simp [hbusy]

theorem allocTo_eq_some :
    s.allocTo j = some a ↔ s.mshr.freeId = some j ∧ s.missAlloc = some a := by
  rw [allocTo]
  split
  · simp [*]
  · simp [*]

theorem allocTo_of_valid (hj : s.mshr.valid j = true) : s.allocTo j = none := by
  refine if_neg fun hfree => ?_
  rw [valid_of_freeId hfree] at hj
  cases hj

theorem valid_next : (s.next i).mshr.valid j = true ↔
    s.tagFire ≠ some j ∧ ((∃ a, s.allocTo j = some a) ∨ s.mshr.valid j = true) := by
  have hnext : (s.next i).mshr = s.mshr.next s.missAlloc i.memCmdReady (i.memResp.map (·.1))
    s.dataReady s.tagReady := rfl
  refine (next_valid hnext).trans (and_congr_right fun _ => or_congr_left ?_)
  simp only [allocTo_eq_some, Option.isSome_iff_exists]
  constructor
  · rintro ⟨⟨a, ha⟩, hfree⟩
    exact ⟨a, hfree, ha⟩
  · rintro ⟨a, hfree, ha⟩
    exact ⟨⟨a, ha⟩, hfree⟩

theorem valid_next_of_kept (ha : s.allocTo j = none) :
    (s.next i).mshr.valid j = true ↔ s.tagFire ≠ some j ∧ s.mshr.valid j = true := by
  refine valid_next.trans (and_congr_right fun _ => or_iff_right ?_)
  rintro ⟨a, hnew⟩
  rw [ha] at hnew
  cases hnew

/-- An MSHR in use after a cycle has a new miss, or kept its own. -/
theorem of_valid_next (hj : (s.next i).mshr.valid j = true) :
    (∃ a, s.allocTo j = some a) ∨
      s.mshr.valid j = true ∧ s.allocTo j = none ∧ s.tagFire ≠ some j := by
  obtain ⟨htag, hnew | hold⟩ := valid_next.mp hj
  · exact .inl hnew
  · exact .inr ⟨hold, allocTo_of_valid hold, htag⟩

theorem of_allocTo (ha : s.allocTo j = some a)
    (k : Fin c.outstanding) (hk : s.mshr.valid k = true) :
    a.1.addr % c.sets ≠ (s.mshr.mshr k).addr % c.sets := by
  obtain ⟨-, hmiss⟩ := allocTo_eq_some.mp ha
  obtain ⟨rfl, -, hsets⟩ := of_missAlloc hmiss
  exact hsets k hk

theorem of_asks (h : s.asks i j = true) : s.mshr.valid j = true ∧
    (s.mshr.mshr j).oldDirty = false ∧ (s.mshr.mshr j).wbBusy = false ∧
    (s.mshr.mshr j).requested = false := by
  have hreq := of_decide_eq_true (Bool.and_eq_true_iff.mp h).2
  rw [refillReq, memReq] at hreq
  split at hreq
  · have hsome := priorityEncoder_some hreq
    simp only [Bool.and_eq_true, Bool.not_eq_true'] at hsome
    exact ⟨hsome.1.1.1, hsome.1.1.2, hsome.1.2, hsome.2⟩
  · cases hreq

/-- A set has one MSHR. A beat comes for no MSHR that is free. -/
theorem sets_next (hfree : ∀ j a, s.allocTo j = some a → answers i j = false)
    (hsets : ∀ j k, s.mshr.valid j = true → s.mshr.valid k = true →
      (s.mshr.mshr j).addr % c.sets = (s.mshr.mshr k).addr % c.sets → j = k)
    (hj : (s.next i).mshr.valid j = true) (hk : (s.next i).mshr.valid k = true)
    (hset : ((s.next i).mshr.mshr j).addr % c.sets = ((s.next i).mshr.mshr k).addr % c.sets) :
    j = k := by
  rcases of_valid_next hj with ⟨a, ha⟩ | ⟨hvj, haj, -⟩ <;>
    rcases of_valid_next hk with ⟨b, hb⟩ | ⟨hvk, hak, -⟩
  · have hfree := (allocTo_eq_some.mp ha).1
    exact Option.some.inj (hfree.symm.trans (allocTo_eq_some.mp hb).1)
  · rw [mshr_of_alloc ha (hfree _ _ ha), (missKept hak).addr] at hset
    exact absurd hset (of_allocTo ha k hvk)
  · rw [mshr_of_alloc hb (hfree _ _ hb), (missKept haj).addr] at hset
    exact absurd hset.symm (of_allocTo hb j hvj)
  · rw [(missKept haj).addr, (missKept hak).addr] at hset
    exact hsets j k hvj hvk hset

/-! ### `LLCWriteback` and the ports of memory -/

/-- An idle `LLCWriteback` drives nothing. -/
theorem wbFire_of_idle (h : s.writeback.valid = false) :
    s.wbDataFire i = false ∧ s.wbCmdFire i = false := by
  simp [wbDataFire, wbCmdFire, memData, memCmd, h]

theorem memCmd_next : (s.next i).writeback.memCmd =
    match s.victimFire with
    | some j => some (s.mshr.mshr j).victim
    | none =>
      if s.missWrite then some s.s2.addr
      else if s.wbCmdFire i then none
      else s.writeback.memCmd := by
  change (s.writeback.next c s.wbReq (s.wbDataFire i) (s.wbCmdFire i)).memCmd = _
  rcases hvictim : s.victimFire with _ | j
  · cases hm : s.missWrite with
    | true =>
      obtain ⟨_, _, hv, hreq⟩ := of_missWrite hm
      obtain ⟨hdata, hcmd⟩ := wbFire_of_idle (i := i) hv
      rw [hdata, hcmd, next_of_idle hv, hreq]
      rfl
    | false =>
      cases hv : s.writeback.valid with
      | true =>
        rw [next_of_valid hv]
        cases s.wbCmdFire i <;> cases hsent : s.writeback.cmdSent <;> simp [memCmd, hv, hsent]
      | false =>
        obtain ⟨hdata, hcmd⟩ := wbFire_of_idle (i := i) hv
        rw [hdata, hcmd, next_of_idle hv]
        rcases hreq : nextReq s.wbReq with _ | ⟨who, addr⟩
        · rfl
        · exfalso
          rcases Fin.exists_fin_two.mp ⟨who, rfl⟩ with rfl | rfl
          · obtain ⟨j, hj⟩ := victimFire_of_nextReq hreq
            rw [hvictim] at hj
            cases hj
          · rw [missWrite_of_nextReq hv hreq] at hm
            cases hm
  · obtain ⟨hv, _, hreq⟩ := of_victimFire hvictim
    obtain ⟨hdata, hcmd⟩ := wbFire_of_idle (i := i) hv
    rw [hdata, hcmd, next_of_idle hv, hreq]
    rfl

theorem dataSent_of_wbDataFire (h : s.wbDataFire i = true) : s.writeback.dataSent = false := by
  by_contra hsent
  simp [wbDataFire, memData, hsent] at h

end DRAMSideLLC

end RiscvSoc
