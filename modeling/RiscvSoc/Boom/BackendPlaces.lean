import Mathlib.Data.List.ReduceOption
import RiscvSoc.Boom.BackendStage

/-!
# Everything behind the issue unit is in the reorder buffer

A micro-op in the back end is a micro-op of the buffer, or a half of one, and busy there. It is in
one place only. So whatever a unit reports is about the micro-op it was given, which is what the
core and its issue unit asked of the outside.

`FENCE.I` is different. It is not busy, so the buffer does not wait for it, and nothing keeps it
from being issued. When it commits it flushes the pipeline, and for one cycle there is something in
the back end that is no longer in the buffer. It is alone then.
-/

namespace RiscvSoc

variable {c : BOOMConf} {N W : ℕ}

/-! ### Rows -/

/-- The micro-op without the types of its operands. -/
def RobUop.whole (u : RobUop c) : RobUop c := { u with lrs1Rtype := .x, lrs2Rtype := .x }

/-- The micro-op is `e`, or a half of it. -/
structure ExeUop.From (u : ExeUop c) (e : RobUop c) : Prop where
  whole : u.toRobUop.whole = e.whole
  rtype : ∀ o, u.lrsRtype o = .fix → e.lrsRtype o = .fix

namespace ExeUop.From

variable {u : ExeUop c} {e : RobUop c} (h : u.From e)
include h

theorem same {α : Type} (f : RobUop c → α) : f u.toRobUop.whole = f e.whole := congrArg f h.whole

theorem seq : u.seq = e.seq := h.same RobUop.seq

theorem robIdx : u.robIdx = e.robIdx := h.same RobUop.robIdx

theorem brMask : u.brMask = e.brMask := h.same (fun x : RobUop c => x.brMask)

theorem pdst : u.pdst = e.pdst := h.same (fun x : RobUop c => x.pdst)

theorem ldstRtype : u.ldstRtype = e.ldstRtype :=
  h.same (fun x : RobUop c => x.ldstRtype)

theorem exception : u.exception = e.exception := h.same RobUop.exception

theorem isStore : u.isStore = e.isStore := h.same RobUop.isStore

theorem allocatesBrTag : u.allocatesBrTag = e.allocatesBrTag :=
  h.same (fun x : RobUop c => x.allocatesBrTag)

theorem flushOnCommit : u.flushOnCommit = e.flushOnCommit :=
  h.same RobUop.flushOnCommit

theorem pop (o : Operand) : u.pop o = e.pop o := by
  cases o
  · exact h.same (fun x : RobUop c => x.pop1)
  · exact h.same (fun x : RobUop c => x.pop2)

theorem resolve (brinfo : Option (BrResolutionInfo c)) :
    (u.resolve brinfo).From (e.resolve brinfo) := by
  refine ⟨?_, ?_⟩
  · show u.toRobUop.whole.resolve brinfo = e.whole.resolve brinfo
    rw [h.whole]
  · intro o hfix
    have hrtype := h.rtype o
    cases o <;> exact hrtype hfix

end ExeUop.From

/-- What the decode tables fix about a micro-op that waits for a unit. -/
structure ExeUop.Row (u : ExeUop c) : Prop where
  fuCode : u.kind ≠ .nop → u.fuCode = u.kind.fuCode
  dst : u.ldstRtype = .fix ↔ u.kind.hasDst = true
  store : u.isStore = true ↔ u.kind = .sta ∨ u.kind = .std
  bru : u.allocatesBrTag = true → u.kind.fuCode = FU_BRU
  flush : u.kind = .nop → u.flushOnCommit = true
  std : u.uopc = .std ↔ u.kind = .std
  exception : u.exception = false

variable {u : ExeUop c}

theorem ExeUop.Row.resolve (h : u.Row) (brinfo : Option (BrResolutionInfo c)) :
    (u.resolve brinfo).Row :=
  ⟨h.fuCode, h.dst, h.store, h.bru, h.flush, h.std, h.exception⟩

theorem ExeUop.Row.key (h : u.Row) (hstore : u.isStore = false) :
    u.key = (u.seq, false) := by
  refine Prod.ext rfl (decide_eq_false ?_)
  intro hstd
  rw [h.store.mpr (.inr (h.std.mp hstd))] at hstore
  cases hstore

theorem ExeUop.Row.not_store (h : u.Row) (hsta : u.kind ≠ .sta)
    (hstd : u.kind ≠ .std) : u.isStore = false := by
  rw [← Bool.not_eq_true, h.store]
  exact fun hor => hor.elim hsta hstd

theorem ExeUop.Row.not_store_of_dst (h : u.Row) (hdst : u.kind.hasDst = true) :
    u.isStore = false := by
  refine h.not_store ?_ ?_ <;>
    · intro hkind
      rw [hkind] at hdst
      cases hdst

namespace Backend

variable [NeZero W] {conf : BackendConf c W} {s : Backend c N W} {i : BackendInput c W}
  {h : BackendLog c N W}

variable {b : Bool} {k : Fin N} {w : Bank c} {r : ExeResp c}

theorem kind_newUop (w : Bank c) (hneeds : (s.front.disUops (s.input conf i) w).needs b = true) :
    (s.newUop conf i w b).kind = if b = true then .std else (i.decs w).info.kind := by
  show (if ((s.front.disUops (s.input conf i) w).half b).uopc = .std then ExeKind.std
    else (i.decs w).info.kind) = _
  rw [IssueUop.half]
  cases b with
  | true =>
    have hsta : (s.front.disUops (s.input conf i) w).uopc = .sta :=
      of_decide_eq_true (Bool.and_eq_true_iff.mp hneeds).1
    simp only [hsta, if_true]
  | false =>
    have hnot : (s.front.disUops (s.input conf i) w).uopc ≠ .std := (i.decs w).not_std.1
    split <;> simp [hnot]

theorem sta_of_enters (henters : s.Enters conf i k w true) :
    (i.decs w).info.kind = .sta := by
  obtain ⟨-, hneeds, -⟩ := IssueUnit.writes_eq_true.mp henters
  obtain ⟨hexc, -⟩ := CoreIssue.partOf_of_writes henters
  exact ((i.decs w).sta_iff hexc).mp (of_decide_eq_true (Bool.and_eq_true_iff.mp hneeds).1)

/-- A half with a unit to go to is one of a micro-op with a unit. -/
theorem info_of_kind (henters : s.Enters conf i k w b)
    (hnop : (s.newUop conf i w b).kind ≠ .nop) : (i.decs w).info.kind ≠ .nop := by
  cases b with
  | true =>
    rw [sta_of_enters henters]
    decide
  | false =>
    obtain ⟨-, hneeds, -⟩ := IssueUnit.writes_eq_true.mp henters
    have hkind := kind_newUop w hneeds
    rw [hkind] at hnop
    exact hnop

theorem from_newUop (henters : s.Enters conf i k w b) :
    (s.newUop conf i w b).From (s.front.core.disUops (s.coreInput conf i) w) := by
  obtain ⟨-, hpart⟩ := CoreIssue.partOf_of_writes henters
  refine ⟨?_, hpart.rtype⟩
  show ((s.front.disUops (s.input conf i) w).half b).toRobUop.whole = _
  rw [IssueUop.half]
  cases b <;> split <;> rfl

/-- **What enters a slot is a row of the decode table.** -/
theorem row_newUop (henters : s.Enters conf i k w b) :
    (s.newUop conf i w b).Row := by
  obtain ⟨-, hneeds, -⟩ := IssueUnit.writes_eq_true.mp henters
  obtain ⟨hexc, -⟩ := CoreIssue.partOf_of_writes henters
  have hkind := kind_newUop w hneeds
  have hfrom := from_newUop henters
  have hinfo : (i.decs w).info.kind ≠ .std := (i.decs w).not_std.2
  have hcode : (s.newUop conf i w b).fuCode = (i.decs w).fuCode := by
    show ((s.front.disUops (s.input conf i) w).half b).fuCode = _
    rw [IssueUop.half]
    cases b <;> split <;> rfl
  have hdst : (s.newUop conf i w b).ldstRtype = .fix ↔ (i.decs w).info.kind.hasDst = true := by
    rw [hfrom.ldstRtype]
    exact (i.decs w).dst_iff hexc
  have hmem : (i.core.decInsts w).isMemSpecial = false := by
    cases b with
    | true =>
      have hsta := sta_of_enters henters
      exact ((i.decs w).busy_of_kind hexc (by rw [hsta]; decide)).2.1
    | false =>
      have hfirst : (_ && _ && _ && !(i.core.decInsts w).isMemSpecial && _) = true := hneeds
      simp only [Bool.and_eq_true, Bool.not_eq_true'] at hfirst
      exact hfirst.1.2
  have hstore : (s.newUop conf i w b).isStore = true ↔ (i.decs w).info.kind = .sta := by
    rw [hfrom.isStore]
    exact (i.decs w).store_iff hexc hmem
  have hbru : (s.newUop conf i w b).allocatesBrTag = true →
      (i.decs w).info.kind.fuCode = FU_BRU := by
    rw [hfrom.allocatesBrTag]
    exact (i.decs w).bru_of_branch hexc
  cases b with
  | true =>
    have hsta := sta_of_enters henters
    rw [hsta] at hdst hstore hbru
    have hstd : (s.newUop conf i w true).kind = .std := hkind
    refine ⟨?_, ?_, ?_, ?_, ?_, ?_, hfrom.exception.trans hexc⟩ <;> rw [hstd]
    · intro _
      rw [hcode, (i.decs w).fuCode_eq hexc (by rw [hsta]; decide), hsta]
      rfl
    · exact hdst
    · exact iff_of_true (hstore.mpr rfl) (.inr rfl)
    · exact hbru
    · intro hnop
      cases hnop
    · refine iff_of_true ?_ rfl
      have hkey := congrArg Prod.snd (newUop_key henters)
      exact of_decide_eq_true hkey
  | false =>
    have hinfo' : (s.newUop conf i w false).kind = (i.decs w).info.kind := hkind
    refine ⟨?_, ?_, ?_, ?_, ?_, ?_, hfrom.exception.trans hexc⟩ <;> rw [hinfo']
    · intro hnop
      rw [hcode, (i.decs w).fuCode_eq hexc hnop]
    · exact hdst
    · rw [hstore, or_iff_left hinfo]
    · exact hbru
    · intro hnop
      have hfirst : (_ && !(i.core.decInsts w).isSret && !(i.decs w).syscall && _ && _) = true :=
        hneeds
      simp only [Bool.and_eq_true, Bool.not_eq_true'] at hfirst
      rw [hfrom.flushOnCommit]
      rcases (i.decs w).flush_of_nop hexc hnop with h | h | h | h
      · rw [hfirst.1.1.1.2] at h
        cases h
      · rw [hfirst.1.1.2] at h
        cases h
      · rw [hmem] at h
        cases h
      · exact h
    · refine iff_of_false ?_ hinfo
      have hkey := congrArg Prod.snd (newUop_key henters)
      exact of_decide_eq_false hkey

/-! ### Responses -/

/-- What is at `g` is answered by `r`. -/
inductive Answers (conf : BackendConf c W) (s : Backend c N W) (i : BackendInput c W) :
    Stage N W → ExeUop c → ExeResp c → Prop
  | alu {w : Fin W} {u : ExeUop c} {d : Word} (hk : (conf.kinds w).hasAlu = true)
      (hu : (s.units w).alu = some (u, d))
      (hkill : isKilledByBranch s.front.core.brinfo u.brMask = false) :
      Answers conf s i (.alu w) u
        (wbData i w 0 ⟨u.resolve s.front.core.brinfo, d, u.kind.rfWen, u.ldstRtype⟩)
  | mulDiv {w : Fin W} {r : ExeResp c} (hr : (s.units w).mulDivResp (conf.kinds w) = some r)
      (hready : (s.units w).mulDivReady (conf.kinds w) (s.unitInput i w) = true) :
      Answers conf s i (.mulDiv w) (s.units w).mulDivUop r
  | load {w : Fin W} {n : ℕ} {d : Word} {u : ExeUop c} (hmem : i.memAnswer w = some (.load n d))
      (hu : (s.units w).loads[n]? = some u) : Answers conf s i (.load w) u ⟨u, d, true, .fix⟩

theorem wbData_uop (w : Fin W) (j : ℕ) (r : ExeResp c) : (wbData i w j r).uop = r.uop := by
  rw [wbData]
  split <;> rfl

theorem wbData_writes (w : Fin W) (j : ℕ) (r : ExeResp c) :
    (wbData i w j r).writes = r.writes := by
  rw [wbData]
  split <;> rfl

theorem wbData_of_ne {w : Fin W} {j : ℕ} (hcsr : r.uop.kind ≠ .csr) :
    wbData i w j r = r := if_neg fun h => hcsr h.2.2

theorem mem_portsOf {w : Fin W} : r ∈ s.portsOf conf i w ↔
    ∃ j r₀, ((s.units w).ports (conf.kinds w) (s.unitInput i w))[j]? = some (some r₀) ∧
      wbData i w j r₀ = r := by
  rw [portsOf, List.reduceOption_mem_iff, List.mem_mapIdx]
  constructor
  · rintro ⟨j, hj, heq⟩
    obtain ⟨r₀, hr₀, rfl⟩ := Option.map_eq_some_iff.mp heq
    exact ⟨j, r₀, List.getElem?_eq_some_iff.mpr ⟨hj, hr₀⟩, rfl⟩
  · rintro ⟨j, r₀, hget, rfl⟩
    obtain ⟨hj, hr₀⟩ := List.getElem?_eq_some_iff.mp hget
    exact ⟨j, hj, Option.map_eq_some_iff.mpr ⟨r₀, hr₀, rfl⟩⟩

theorem mem_responses :
    r ∈ s.responses conf i ↔ ∃ w, r ∈ s.portsOf conf i w := by
  rw [responses, List.mem_flatMap]
  exact ⟨fun ⟨w, _, hw⟩ => ⟨w, hw⟩, fun ⟨w, hw⟩ => ⟨w, List.mem_finRange w, hw⟩⟩

namespace Answers

variable {g : Stage N W} {u : ExeUop c} {r r' : ExeResp c}

section

variable (ha : Answers conf s i g u r)
include ha

theorem at_place : s.At g u := by
  cases ha with
  | alu _ hu => exact ⟨_, hu⟩
  | mulDiv hr =>
    exact ⟨ExeUnit.state_ne_of_respValid (ExeUnit.mulDivResp_eq_some.mp hr).1, rfl⟩
  | load _ hu => exact List.mem_of_getElem? hu

/-- The answer names the micro-op, under another mask maybe. -/
theorem uop : ∃ m, r.uop = { u with brMask := m } := by
  cases ha with
  | alu => exact ⟨_, wbData_uop _ _ _⟩
  | mulDiv hr =>
    obtain ⟨-, rfl⟩ := ExeUnit.mulDivResp_eq_some.mp hr
    exact ⟨_, rfl⟩
  | load => exact ⟨_, rfl⟩

theorem seq : r.uop.seq = u.seq := by
  obtain ⟨m, hm⟩ := ha.uop
  rw [hm]

theorem robIdx : r.uop.robIdx = u.robIdx := by
  obtain ⟨m, hm⟩ := ha.uop
  rw [hm]

theorem pdst : r.uop.pdst = u.pdst := by
  obtain ⟨m, hm⟩ := ha.uop
  rw [hm]

theorem isStore : r.uop.isStore = u.isStore := by
  obtain ⟨m, hm⟩ := ha.uop
  rw [hm]

theorem kind : r.uop.kind = u.kind := by
  obtain ⟨m, hm⟩ := ha.uop
  rw [hm]
  rfl

theorem unique (ha' : Answers conf s i g u r') : r = r' := by
  cases ha with
  | alu _ hu =>
    cases ha' with
    | alu _ hu' =>
      cases hu.symm.trans hu'
      rfl
  | mulDiv hr =>
    cases ha' with
    | mulDiv hr' => exact Option.some.inj (hr.symm.trans hr')
  | load hmem =>
    cases ha' with
    | load hmem' =>
      cases hmem.symm.trans hmem'
      rfl

end

end Answers

/-! ### The invariant -/

/-- The unit can do what it was given. -/
def Suits (conf : BackendConf c W) : Stage N W → ExeUop c → Prop
  | .slot _, _ => True
  | .exe w, u => u.fuCode &&& (conf.kinds w).codes (decide (w = 0)) true ≠ 0
  | .alu w, u => (conf.kinds w).hasAlu = true ∧ u.kind.fuCode ≠ FU_MULD ∧ u.kind.fuCode ≠ FU_MEM
  | .mulDiv w, u => (conf.kinds w).hasMulDiv = true ∧ (u.kind = .mulDiv ∨ u.kind = .nop)
  | .load w, u => (conf.kinds w).hasMem = true ∧ u.kind = .load
  | .gone, _ => False

/-- A micro-op is in the buffer, or it has just committed and is being flushed. -/
def Backed (s : Backend c N W) (u : ExeUop c) : Prop :=
  (∃ x, (s.front.core.rob.entry x).val = true ∧
    (u.kind ≠ .nop → (s.front.core.rob.entry x).bsy = true) ∧
      u.From (s.front.core.rob.entry x).uop) ∨
    u.kind = .nop ∧ s.front.core.rob.flushPipeline = true ∧ s.front.core.rob.window = []

structure PlacesOk (conf : BackendConf c W) (s : Backend c N W) (h : BackendLog c N W) : Prop where
  lt : ∀ g u, s.At g u → u.seq < s.front.core.count
  stage : ∀ g u, s.At g u → h.stage u.key = g
  distinct : ∀ w, ((s.units w).loads.map ExeUop.key).Nodup
  row : ∀ g u, s.At g u → u.Row
  backed : ∀ g u, s.At g u → s.Backed u
  /-- While the buffer rolls back, the back end is empty. -/
  drained : s.front.core.rob.state = .rollback → s.front.core.rob.flushPipeline = false →
    ∀ g u, ¬s.At g u
  suits : ∀ g u, s.At g u → Suits conf g u
  /-- The multiplier can take what it is given. -/
  free : ∀ w r, (conf.kinds w).mulDivReq (s.exeReg w) = some r →
    (s.units w).mulDiv.state = .sReady
  /-- The branch in the ALU is executed. -/
  executed : ∀ w u, s.At (.alu w) u → ∀ b ∈ s.front.core.brs, b.seq ≠ u.seq
  /-- After what no unit has to execute nothing is dispatched. -/
  alone : ∀ g u, s.At g u → u.kind = .nop → u.seq + 1 = s.front.core.count

namespace PlacesOk

variable {g g' : Stage N W} {u v : ExeUop c} {r : ExeResp c}

theorem eq_of_key (hp : PlacesOk conf s h) (hu : s.At g u) (hv : s.At g' v) (hkey : u.key = v.key) :
    g = g' ∧ u = v := by
  have hg : g = g' := by
    rw [← hp.stage g u hu, ← hp.stage g' v hv, hkey]
  subst hg
  refine ⟨rfl, ?_⟩
  cases g with
  | slot k => exact hu.2.symm.trans hv.2
  | exe w =>
    obtain ⟨r, hr, rfl⟩ := hu
    obtain ⟨r', hr', rfl⟩ := hv
    cases hr.symm.trans hr'
    rfl
  | alu w =>
    obtain ⟨d, hd⟩ := hu
    obtain ⟨d', hd'⟩ := hv
    cases hd.symm.trans hd'
    rfl
  | mulDiv w => exact hu.2.symm.trans hv.2
  | load w => exact List.inj_on_of_nodup_map (hp.distinct w) hu hv hkey
  | gone => exact hu.elim

variable {x : RobSlot c}

section

variable (hp : PlacesOk conf s h)
include hp

/-- As long as there is an entry in the buffer, a micro-op has one. -/
theorem exists_from (hu : s.At g u) (hx : (s.front.core.rob.entry x).val = true) :
    ∃ y, (s.front.core.rob.entry y).val = true ∧
      (u.kind ≠ .nop → (s.front.core.rob.entry y).bsy = true) ∧
        u.From (s.front.core.rob.entry y).uop := by
  rcases hp.backed g u hu with hentry | ⟨-, -, hempty⟩
  · exact hentry
  · have hmem := Rob.mem_window.mpr ⟨x, hx, rfl⟩
    rw [hempty] at hmem
    cases hmem

theorem seq_of_robSlot (ho : s.front.core.Ordered) (hu : s.At g u) (hv : s.At g' v)
    (hidx : robSlot (c := c) u.robIdx = robSlot v.robIdx) : u.seq = v.seq := by
  have hfroms {x : RobSlot c} (hx : (s.front.core.rob.entry x).val = true) : u.seq = v.seq := by
    obtain ⟨y, hy, -, hfrom⟩ := hp.exists_from hu hx
    obtain ⟨z, hz, -, hfrom'⟩ := hp.exists_from hv hx
    rw [hfrom.robIdx, hfrom'.robIdx, ho.shaped.addressed y hy, ho.shaped.addressed z hz] at hidx
    rw [hfrom.seq, hfrom'.seq, hidx]
  rcases hp.backed g u hu with ⟨x, hx, -, -⟩ | ⟨hnop, -, -⟩
  · exact hfroms hx
  · rcases hp.backed g' v hv with ⟨y, hy, -, -⟩ | ⟨hnop', -, -⟩
    · exact hfroms hy
    · exact Nat.succ_injective ((hp.alone g u hu hnop).trans (hp.alone g' v hv hnop').symm)

/-- **What is no store is in one place**, with one number. -/
theorem eq_of_seq (ho : s.front.core.Ordered) (hu : s.At g u) (hv : s.At g' v)
    (hseq : u.seq = v.seq) (hstore : u.isStore = false) : g = g' ∧ u = v := by
  have hstore' : v.isStore = false := by
    rcases hp.backed g' v hv with ⟨y, hy, -, hfrom'⟩ | ⟨hnop, -, -⟩
    · obtain ⟨x, hx, -, hfrom⟩ := hp.exists_from hu hy
      have heq := ho.eq_of_seq (Rob.mem_window.mpr ⟨x, hx, rfl⟩)
        (Rob.mem_window.mpr ⟨y, hy, rfl⟩) (hfrom.seq.symm.trans (hseq.trans hfrom'.seq))
      rw [hfrom'.isStore, ← heq, ← hfrom.isStore, hstore]
    · refine (hp.row g' v hv).not_store ?_ ?_ <;>
        · rw [hnop]
          decide
  refine hp.eq_of_key hu hv ?_
  rw [(hp.row g u hu).key hstore, (hp.row g' v hv).key hstore', hseq]

/-- **What is on a write port** was given to that unit. -/
theorem exists_answers (hr : r ∈ s.responses conf i) :
    ∃ g u, Answers conf s i g u r := by
  obtain ⟨w, hw⟩ := mem_responses.mp hr
  obtain ⟨j, r₀, hget, rfl⟩ := mem_portsOf.mp hw
  rcases ExeUnit.of_ports_getElem hget with ⟨rfl, hk, halu⟩ | hmem | ⟨hmul, hready⟩
  · obtain ⟨u, d, hu, hkill, rfl⟩ := ExeUnit.aluResp_eq_some.mp halu
    exact ⟨_, u, .alu hk hu hkill⟩
  · obtain ⟨n, d, u, hanswer, hu, rfl⟩ := ExeUnit.memResp_eq_some.mp hmem
    have hkind := (hp.suits (.load w) u (List.mem_of_getElem? hu)).2
    have hcsr : u.kind ≠ .csr := by
      rw [hkind]
      decide
    refine ⟨.load w, u, ?_⟩
    rw [wbData_of_ne (r := ⟨u, d, true, .fix⟩) hcsr]
    exact .load hanswer hu
  · have ha : Answers conf s i (.mulDiv w) _ r₀ := .mulDiv hmul hready
    have hkind := (hp.suits _ _ ha.at_place).2
    have hcsr : r₀.uop.kind ≠ .csr := by
      rw [ha.kind]
      rcases hkind with h | h <;>
        · rw [h]
          decide
    rw [wbData_of_ne hcsr]
    exact ⟨_, _, ha⟩

/-! ### What the core is told -/

/-- Whose busy bit is cleared: an answered micro-op's, or a store's that the load/store unit has
both halves of. -/
theorem of_clearsBsy (hclear : (s.front.core.robInput (s.coreInput conf i)).clearsBsy x = true) :
    (∃ g u r, Answers conf s i g u r ∧ u.isStore = false ∧ robSlot u.robIdx = x) ∨
      ∃ w r, s.exeReg w = some r ∧ i.otherHalf w = true ∧ (r.uop.kind = .sta ∨ r.uop.kind = .std) ∧
        robSlot r.uop.robIdx = x := by
  rcases Bool.or_eq_true_iff.mp hclear with hwb | hlsu
  · obtain ⟨idx, hmem, hidx⟩ := List.any_eq_true.mp hwb
    obtain ⟨r, hr, rfl⟩ := List.mem_map.mp hmem
    obtain ⟨hr, hstore⟩ := List.mem_filter.mp hr
    obtain ⟨g, u, ha⟩ := hp.exists_answers hr
    rw [Bool.not_eq_true', ha.isStore] at hstore
    rw [decide_eq_true_eq, ha.robIdx] at hidx
    exact .inl ⟨g, u, r, ha, hstore, hidx⟩
  · obtain ⟨idx, hidx, rfl⟩ := Option.map_eq_some_iff.mp (of_decide_eq_true hlsu)
    obtain ⟨w, -, hw⟩ := List.exists_of_findSome?_eq_some hidx
    obtain ⟨r, hr, hsome⟩ := Option.bind_eq_some_iff.mp hw
    obtain ⟨hcond, heq⟩ := Option.ite_none_right_eq_some.mp hsome
    simp only [Bool.and_eq_true, decide_eq_true_eq] at hcond
    exact .inr ⟨w, r, (ExeUnitKind.of_memReq hr).1, hcond.2, hcond.1.2,
      congrArg robSlot (Option.some.inj heq)⟩

theorem exists_at_of_clearsBsy
    (hclear : (s.front.core.robInput (s.coreInput conf i)).clearsBsy x = true) :
    ∃ g u, s.At g u ∧ robSlot u.robIdx = x := by
  rcases hp.of_clearsBsy hclear with ⟨g, u, r, ha, -, hidx⟩ | ⟨w, r, hr, -, -, hidx⟩
  · exact ⟨g, u, ha.at_place, hidx⟩
  · exact ⟨.exe w, r.uop, ⟨r, hr, rfl⟩, hidx⟩

section

variable (ho : s.front.core.Ordered)
include ho

theorem clearsBsy_new {w : Bank c} (hw : s.front.core.disMask (s.coreInput conf i) w = true) :
    (s.front.core.robInput (s.coreInput conf i)).clearsBsy (s.front.core.rob.tail, w) = false := by
  rw [← Bool.not_eq_true]
  intro hclear
  obtain ⟨g, u, hu, hidx⟩ := hp.exists_at_of_clearsBsy hclear
  rcases hp.backed g u hu with ⟨x, hx, -, hfrom⟩ | ⟨-, hflush, -⟩
  · rw [hfrom.robIdx, ho.shaped.addressed x hx] at hidx
    have hfill : s.front.core.rob.fills (s.front.core.robInput (s.coreInput conf i)) x = true :=
      Rob.fills_eq_true.mpr ⟨congrArg Prod.fst hidx, (congrArg Prod.snd hidx).symm ▸ hw⟩
    rw [ho.shaped.val_of_fills ho.accepts hfill] at hx
    cases hx
  · rw [(Core.goes_of_disMask hw).noFlush] at hflush
    cases hflush

theorem clearsBsy_slot (hok : i.Ok s) {k : Fin N}
    (hvalid : (s.front.issue.slots k).slotValid = true) :
    (s.front.core.robInput (s.coreInput conf i)).clearsBsy
      (robSlot (s.slotUop k).robIdx) = false := by
  rw [← Bool.not_eq_true]
  intro hclear
  have hat : s.At (.slot k) (s.slotUop k) := ⟨hvalid, rfl⟩
  rcases hp.of_clearsBsy hclear with ⟨g, u, r, ha, hstore, hidx⟩ | ⟨w, r, hr, hother, -, hidx⟩
  · have hseq := hp.seq_of_robSlot ho ha.at_place hat hidx
    have hg := (hp.eq_of_seq ho ha.at_place hat hseq hstore).1
    cases ha <;> cases hg
  · exact hok w r hother hr k hvalid hidx.symm

theorem clearsBsy_branch {b : RobUop c} (hb : b ∈ s.front.core.brs) :
    (s.front.core.robInput (s.coreInput conf i)).clearsBsy (robSlot b.robIdx) = false := by
  rw [← Bool.not_eq_true]
  intro hclear
  have hpend := Core.mem_pending_of_brs hb
  obtain ⟨x, hx, -, huop⟩ := ho.waits b hpend
  have hxb : robSlot b.robIdx = x := huop ▸ ho.shaped.addressed x hx
  -- whoever is in that entry is the branch
  have hbranch {g : Stage N W} {u : ExeUop c} (hu : s.At g u)
      (hidx : robSlot (c := c) u.robIdx = robSlot b.robIdx) :
      u.seq = b.seq ∧ u.kind.fuCode = FU_BRU := by
    obtain ⟨y, hy, -, hfrom⟩ := hp.exists_from hu hx
    rw [hfrom.robIdx, ho.shaped.addressed y hy, hxb] at hidx
    subst hidx
    rw [huop] at hfrom
    refine ⟨hfrom.seq, (hp.row g u hu).bru ?_⟩
    rw [hfrom.allocatesBrTag]
    exact ho.allocates b hpend
  rcases hp.of_clearsBsy hclear with ⟨g, u, r, ha, -, hidx⟩ | ⟨w, r, hr, -, hkind, hidx⟩
  · obtain ⟨hseq, hcode⟩ := hbranch ha.at_place hidx
    have hsuits := hp.suits g u ha.at_place
    cases ha with
    | @alu w _ _ _ hu => exact hp.executed w u ⟨_, hu⟩ b hb hseq.symm
    | mulDiv =>
      rcases hsuits.2 with hkind | hkind <;>
        · rw [hkind] at hcode
          cases hcode
    | load =>
      rw [hsuits.2] at hcode
      cases hcode
  · obtain ⟨-, hcode⟩ := hbranch (g := .exe w) ⟨r, hr, rfl⟩ hidx
    rcases hkind with hkind | hkind <;>
      · rw [hkind] at hcode
        cases hcode

/-- **What the core is told** is about micro-ops it has sent out. -/
theorem input_ok (hok : i.Ok s) :
    (s.input conf i).Ok s.front := by
  have hnew : ∀ u ∈ s.front.core.newUops (s.coreInput conf i),
      (s.front.core.robInput (s.coreInput conf i)).clearsBsy (robSlot u.robIdx) = false := by
    intro u hu
    obtain ⟨w, hw, rfl⟩ := Core.mem_newUops.mp hu
    have haddr : robSlot (s.front.core.disUops (s.coreInput conf i) w).robIdx =
        (s.front.core.rob.tail, w) := robSlot_idx (s.front.core.rob.tail, w)
    rw [haddr]
    exact hp.clearsBsy_new ho hw
  refine ⟨?_, fun k hvalid => hp.clearsBsy_slot ho hok hvalid, hnew⟩
  intro u hu _
  rcases List.mem_append.mp hu with hu | hu
  · exact hp.clearsBsy_branch ho hu
  · exact hnew u hu

end

end

end PlacesOk

end Backend

end RiscvSoc
