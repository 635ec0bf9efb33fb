import RiscvSoc.Rocket.FPU

/-!
# The write port of the floating-point unit

An instruction that leaves the memory stage for a unit is written back by that unit, as many cycles
after its execute stage as the unit has latency, and the port is used by nobody else in that cycle.

The place that an instruction takes in the shift register and the place of an older one fall out
together exactly if they were predicted to. The prediction is made from the bits that are set and
from the instruction ahead, and these two are all instructions that are older: that is what the
shift register holds (`wen_testBit_iff`). An instruction that is killed after all leaves a record
where no bit is set; it overwrites nothing, since its place was free.
-/

namespace RiscvSoc

open PipeId FPUState

/-! ### The signals of an instruction -/

namespace PipeId

variable {conf : FPUConfig} {Cmd : Type} {c : FPUCtrlSigs Cmd}

/-- The unit an instruction is for, if it is for one. -/
def unitOf (c : FPUCtrlSigs Cmd) : Option PipeId :=
  if c.fastpipe then some fpmu
  else if c.fromint then some ifpu
  else if c.fma then some (if c.single then sfma else dfma)
  else none

variable (d : FPDecoded)

theorem cond_sigs (p : PipeId) :
    p.cond d.sigs = decide (unitOf d.sigs = some p) := by
  have hrow : p.cond d.inst.row = decide (unitOf d.inst.row = some p) := by
    cases d.inst <;> cases p <;> rfl
  exact hrow

theorem orOf_sigs (f : PipeId → ℕ) :
    orOf d.sigs f = ((unitOf d.sigs).map f).getD 0 := by
  rw [orOf, all, List.map_cons, List.map_cons, List.map_cons, List.map_cons, List.map_nil,
    cond_sigs, cond_sigs, cond_sigs, cond_sigs]
  cases hunit : unitOf d.sigs with
  | none => simp
  | some p => cases p <;> simp

theorem unitOf_isSome :
    (unitOf d.sigs).isSome = (d.sigs.fma || d.sigs.fastpipe || d.sigs.fromint) := by
  have hrow : (unitOf d.inst.row).isSome =
      (d.inst.row.fma || d.inst.row.fastpipe || d.inst.row.fromint) := by
    cases d.inst <;> rfl
  exact hrow

theorem two_le_latency (conf : FPUConfig) (p : PipeId) : 2 ≤ p.latency conf := by
  cases p with
  | fpmu => exact le_rfl
  | ifpu => exact Nat.le_succ 2
  | sfma => exact conf.two_le_sfma
  | dfma => exact conf.two_le_dfma

theorem latency_le_max (conf : FPUConfig) (p : PipeId) : p.latency conf ≤ maxLatency conf := by
  rw [maxLatency, all]
  cases p <;> simp

theorem index_lt (p : PipeId) : all[p.index]? = some p := by
  cases p <;> rfl

theorem cmd_of_fastpipe (h : unitOf d.sigs = some fpmu) :
    FPUCmd.cvtFF.is d.cmd = true ∨ FPUCmd.sgnj.is d.cmd = true ∨ FPUCmd.minmax.is d.cmd = true := by
  have hrow : d.inst.row.fastpipe = true →
      d.inst.row.cmd = .cvtFF ∨ d.inst.row.cmd = .sgnj ∨ d.inst.row.cmd = .minmax := by
    cases d.inst <;> decide
  have hfast : d.inst.row.fastpipe = true := by
    have hcond := cond_sigs d fpmu
    rw [h, decide_eq_true rfl] at hcond
    exact hcond
  have hcmd := d.cmd_is
  rcases hrow hfast with hconv | hsgnj | hminmax
  · rw [hconv] at hcmd
    exact Or.inl hcmd
  · rw [hsgnj] at hcmd
    exact Or.inr (Or.inl hcmd)
  · rw [hminmax] at hcmd
    exact Or.inr (Or.inr hcmd)

end PipeId

/-! ### Bits -/

theorem two_pow_and_ne_zero_iff {w k : ℕ} : w &&& 2 ^ k ≠ 0 ↔ w.testBit k = true := by
  rw [Nat.and_two_pow]
  cases w.testBit k <;> simp

/-! ### Runs -/

/-- One run of the unit. -/
structure FPURun (conf : FPUConfig) (u : FPUUnits) where
  st : ℕ → FPUState
  inp : ℕ → FPUIn
  run : (FPU.machine conf u).Run st inp

namespace FPURun

variable {conf : FPUConfig} {u : FPUUnits} (r : FPURun conf u)

/-- The instruction that is in the execute stage reaches the memory stage, and it is for a unit. -/
def Reaches (t : ℕ) : Prop := (r.st (t + 1)).memWen = true

/-- It is neither killed nor nacked there. -/
def Leaves (t : ℕ) : Prop := r.Reaches t ∧ (r.st (t + 1)).killm (r.inp (t + 1)) = false

/-- The unit it is for. -/
def unit (t : ℕ) : PipeId := (unitOf (r.st t).exCtrl).getD .fpmu

/-- The cycle in which its result comes out of the unit. -/
def due (t : ℕ) : ℕ := t + (r.unit t).latency conf

/-- What it should write: the result of its unit on its own operands. -/
def written (t : ℕ) : FPWrite where
  addr := FPUState.rd (r.st t).exRegInst
  result := wdata (r.unit t)
    (u.result (u.lt ((r.st t).req (r.inp t))) ((r.st t).unitReq (r.inp t) (r.unit t)) (r.unit t))

variable {r} {t t' k : ℕ}

theorem st_succ (t : ℕ) : r.st (t + 1) = (r.st t).next conf u (r.inp t) := r.run.step t

theorem idle : (r.st 0).Idle := r.run.init

theorem ex_decoded (h : (r.st t).exRegValid = true) :
    ∃ d : FPDecoded, (r.st t).exCtrl = d.sigs := by
  cases t with
  | zero =>
    rw [r.idle.1] at h
    exact absurd h Bool.false_ne_true
  | succ t =>
    rw [st_succ] at h
    have hvalid : (r.inp t).valid = true := h
    refine ⟨(r.inp t).decoded, ?_⟩
    rw [st_succ]
    exact if_pos hvalid

theorem mem_of_reaches (h : r.Reaches t) : (r.st t).exRegValid = true ∧
    (r.st (t + 1)).memCtrl = (r.st t).exCtrl ∧ (r.st (t + 1)).memRegInst = (r.st t).exRegInst := by
  have hmem : (r.st (t + 1)).memRegValid = true := (Bool.and_eq_true_iff.mp h).1
  have hex : (r.st t).exRegValid = true := by
    rw [st_succ] at hmem
    exact (Bool.and_eq_true_iff.mp hmem).1
  refine ⟨hex, ?_, ?_⟩ <;> rw [st_succ] <;> exact if_pos hex

theorem not_memWen_zero : (r.st 0).memWen = false := by
  rw [memWen, r.idle.2.1, Bool.false_and]

section

variable (h : r.Reaches t)
include h

theorem unitOf_of_reaches : unitOf (r.st t).exCtrl = some (r.unit t) := by
  obtain ⟨hex, hctrl, -⟩ := mem_of_reaches h
  obtain ⟨d, hd⟩ := ex_decoded hex
  have hwen := (Bool.and_eq_true_iff.mp h).2
  rw [hctrl, hd, ← PipeId.unitOf_isSome, ← hd] at hwen
  rw [unit]
  exact (Option.getD_of_ne_none (Option.isSome_iff_ne_none.mp hwen) _).symm

theorem memLatencyMask_of_reaches :
    (r.st (t + 1)).memLatencyMask conf = 2 ^ ((r.unit t).latency conf - 2) := by
  obtain ⟨hex, hctrl, -⟩ := mem_of_reaches h
  obtain ⟨d, hd⟩ := ex_decoded hex
  have hunit := unitOf_of_reaches h
  rw [memLatencyMask, hctrl, latencyMask]
  rw [hd] at hunit ⊢
  rw [orOf_sigs, hunit]
  rfl

theorem memWinfo_of_reaches : (r.st (t + 1)).memWinfo =
    Bits.cat (r.unit t).index 5 (FPUState.rd (r.st t).exRegInst) := by
  obtain ⟨hex, hctrl, hinst⟩ := mem_of_reaches h
  obtain ⟨d, hd⟩ := ex_decoded hex
  have hunit := unitOf_of_reaches h
  rw [memWinfo, hctrl, hinst, pipeid]
  rw [hd] at hunit ⊢
  rw [orOf_sigs, hunit]
  rfl

/-! ### The prediction -/

/-- What an instruction finds when it is predicted whether the port will be taken. -/
theorem writePortBusy_of_reaches : (r.st (t + 1)).writePortBusy = true ↔
    ((r.st t).memWen = true ∧
        ((r.st t).memLatencyMask conf).testBit ((r.unit t).latency conf - 1) = true) ∨
      (r.st t).wen.testBit ((r.unit t).latency conf) = true := by
  obtain ⟨hex, -, -⟩ := mem_of_reaches h
  obtain ⟨d, hd⟩ := ex_decoded hex
  have hunit := unitOf_of_reaches h
  have hmask : ∀ k, latencyMask conf (r.st t).exCtrl k =
      2 ^ ((r.unit t).latency conf - k) := by
    intro k
    rw [latencyMask]
    rw [hd] at hunit ⊢
    rw [orOf_sigs, hunit]
    rfl
  have hbusy : (r.st (t + 1)).writePortBusy = (r.st t).portConflict conf := by
    rw [st_succ]
    exact if_pos hex
  rw [hbusy, portConflict, hmask, hmask, Nat.sub_zero, Bool.or_eq_true,
    Bool.and_eq_true, decide_eq_true_iff, decide_eq_true_iff, two_pow_and_ne_zero_iff,
    two_pow_and_ne_zero_iff]

theorem busy_of_ahead (hnext : r.Reaches (t + 1))
    (hdue : r.due t = r.due (t + 1)) : (r.st (t + 1 + 1)).writePortBusy = true := by
  have htwo := two_le_latency conf (r.unit (t + 1))
  have hplace : (r.unit t).latency conf - 2 = (r.unit (t + 1)).latency conf - 1 := by
    rw [due, due] at hdue
    omega
  rw [writePortBusy_of_reaches hnext]
  refine Or.inl ⟨h, ?_⟩
  rw [memLatencyMask_of_reaches h, hplace]
  exact Nat.testBit_two_pow_self

end

/-! ### The shift register -/

/-- **What the shift register holds**: a bit for every instruction that has left the memory stage,
as far from the end as its result still needs. -/
theorem wen_testBit_iff (t k : ℕ) : (r.st t).wen.testBit k = true ↔
    ∃ j, r.Leaves j ∧ j + 1 < t ∧ r.due j = t + k := by
  induction t generalizing k with
  | zero =>
    rw [r.idle.2.2, Nat.zero_testBit]
    refine iff_of_false Bool.false_ne_true ?_
    rintro ⟨j, -, hlt, -⟩
    omega
  | succ t ih =>
    have hshift : ((r.st t).wen >>> 1).testBit k = true ↔
        ∃ j, r.Leaves j ∧ j + 1 < t ∧ r.due j = t + 1 + k := by
      rw [Nat.testBit_shiftRight, ih]
      refine exists_congr fun j => and_congr_right fun _ => and_congr_right fun _ => ?_
      omega
    have hnext : (r.st (t + 1)).wen = (r.st t).nextWen conf (r.inp t) := by
      rw [st_succ]
      rfl
    rw [hnext, nextWen]
    cases t with
    | zero =>
      rw [not_memWen_zero, Bool.false_and, if_neg (by simp), hshift]
      refine iff_of_false ?_ ?_ <;> rintro ⟨j, -, hlt, -⟩ <;> omega
    | succ t =>
      by_cases hleaves : r.Leaves t
      · have hmask := memLatencyMask_of_reaches hleaves.1
        have hcond : ((r.st (t + 1)).memWen && !(r.st (t + 1)).killm (r.inp (t + 1))) = true := by
          rw [hleaves.1, hleaves.2]
          rfl
        rw [hcond, if_pos rfl, hmask, Nat.testBit_mod_two_pow, Nat.testBit_or, Bool.and_eq_true,
          Bool.or_eq_true, hshift, decide_eq_true_iff, Nat.testBit_two_pow, decide_eq_true_iff]
        constructor
        · rintro ⟨-, ⟨j, hj, hlt, hdue⟩ | rfl⟩
          · exact ⟨j, hj, by omega, hdue⟩
          · have htwo := two_le_latency conf (r.unit t)
            refine ⟨t, hleaves, by omega, ?_⟩
            rw [due]
            omega
        · rintro ⟨j, hj, hlt, hdue⟩
          have hmax := latency_le_max conf (r.unit j)
          have hdue' := hdue
          rw [due] at hdue'
          refine ⟨by omega, ?_⟩
          rcases Nat.lt_or_ge j t with hold | hnew
          · exact Or.inl ⟨j, hj, by omega, hdue⟩
          · have hj : j = t := by omega
            rw [hj] at hdue'
            exact Or.inr (by omega)
      · have hcond : ((r.st (t + 1)).memWen && !(r.st (t + 1)).killm (r.inp (t + 1))) = false := by
          rw [Bool.and_eq_false_iff, Bool.not_eq_false']
          by_contra hno
          rw [not_or, Bool.not_eq_false, Bool.not_eq_true] at hno
          exact hleaves hno
        rw [hcond, if_neg (by simp), hshift]
        refine exists_congr fun j => and_congr_right fun hj => and_congr_left fun _ => ?_
        constructor
        · omega
        · intro hlt
          have hne : j ≠ t := by
            rintro rfl
            exact hleaves hj
          omega

/-- An older instruction with a place in the shift register. -/
theorem busy_of_older (hj : r.Leaves t) (h : r.Reaches t') (hlt : t < t')
    (hdue : r.due t = r.due t') : (r.st (t' + 1)).writePortBusy = true := by
  rcases Nat.lt_or_ge (t + 1) t' with hfar | hnear
  · rw [writePortBusy_of_reaches h]
    exact Or.inr ((wen_testBit_iff t' _).mpr ⟨t, hj, hfar, hdue⟩)
  · obtain rfl : t' = t + 1 := by omega
    exact busy_of_ahead hj.1 h hdue

/-- **One result at a time.** -/
theorem due_inj (h : r.Leaves t) (h' : r.Leaves t') (hdue : r.due t = r.due t') : t = t' := by
  have hnone : ∀ {a b : ℕ}, r.Leaves a → r.Leaves b → a < b → r.due a ≠ r.due b := by
    intro a b ha hb hlt heq
    have hbusy := busy_of_older ha hb.1 hlt heq
    have hkill := hb.2
    rw [killm, hbusy, Bool.or_true] at hkill
    exact Bool.noConfusion hkill
  rcases Nat.lt_trichotomy t t' with hlt | heq | hgt
  · exact absurd hdue (hnone h h' hlt)
  · exact heq
  · exact absurd hdue.symm (hnone h' h hgt)

theorem winfo_eq {j : ℕ} (hj : r.Leaves j) (hlt : j + 1 < t) (hdue : r.due j = t + k) :
    (r.st t).winfo k =
      Bits.cat (r.unit j).index 5 (FPUState.rd (r.st j).exRegInst) := by
  induction t generalizing k with
  | zero => omega
  | succ t ih =>
    have hmax := latency_le_max conf (r.unit j)
    have hnext : (r.st (t + 1)).winfo k = (r.st t).nextWinfo conf k := by
      rw [st_succ]
      rfl
    rw [hnext, nextWinfo]
    have hmax' := hdue
    rw [due] at hmax'
    obtain ⟨t, rfl⟩ : ∃ t', t = t' + 1 := ⟨t - 1, by omega⟩
    rcases Nat.lt_or_ge j t with hold | hnew
    · have hfree : ((r.st (t + 1)).memWen && !(r.st (t + 1)).writePortBusy &&
          ((r.st (t + 1)).memLatencyMask conf).testBit k) = false := by
        rw [Bool.eq_false_iff]
        intro htaken
        rw [Bool.and_eq_true, Bool.and_eq_true, Bool.not_eq_true'] at htaken
        obtain ⟨⟨hreaches, hbusy⟩, hbit⟩ := htaken
        have htwo := two_le_latency conf (r.unit t)
        rw [memLatencyMask_of_reaches hreaches, Nat.testBit_two_pow, decide_eq_true_iff] at hbit
        have hsame : r.due j = r.due t := by
          rw [hdue, due]
          omega
        rw [busy_of_older hj hreaches hold hsame] at hbusy
        exact Bool.noConfusion hbusy
      have hbit : (r.st (t + 1)).wen.testBit (k + 1) = true :=
        (wen_testBit_iff _ _).mpr ⟨j, hj, by omega, by omega⟩
      rw [hfree, if_neg (by simp), hbit, decide_eq_true (by omega), Bool.true_and,
        if_pos rfl]
      exact ih (by omega) (by omega)
    · obtain rfl : j = t := by omega
      have hbusy : (r.st (j + 1)).writePortBusy = false := (Bool.or_eq_false_iff.mp hj.2).2
      have hreaches : (r.st (j + 1)).memWen = true := hj.1
      have hbit : ((r.st (j + 1)).memLatencyMask conf).testBit k = true := by
        rw [memLatencyMask_of_reaches hj.1, Nat.testBit_two_pow]
        exact decide_eq_true (by omega)
      rw [hreaches, hbusy, hbit, Bool.not_false, Bool.true_and, Bool.and_true, if_pos rfl]
      exact memWinfo_of_reaches hj.1

/-! ### The units -/

/-- What a unit delivers: the result of what came in, after its latency. -/
theorem unitOut_eq (hex : (r.st t).exRegValid = true)
    (hunit : unitOf (r.st t).exCtrl = some (r.unit t)) :
    (r.st (r.due t)).unitOut conf (r.unit t) =
      u.result (u.lt (r.st (t + 1)).fpiu) ((r.st t).unitReq (r.inp t) (r.unit t)) (r.unit t) := by
  have htwo := two_le_latency conf (r.unit t)
  obtain ⟨d, hd⟩ := ex_decoded hex
  have hcond : (r.unit t).cond (r.st t).exCtrl = true := by
    rw [hd] at hunit ⊢
    rw [cond_sigs, hunit]
    exact decide_eq_true rfl
  have hin : ((r.st (t + 1)).unitIn (r.unit t)).valid = true ∧
      ((r.st (t + 1)).unitIn (r.unit t)).bits = (r.st t).unitReq (r.inp t) (r.unit t) := by
    rw [st_succ]
    refine ValidIO.load_of_valid ?_
    show ((r.st t).exRegValid && (r.unit t).cond (r.st t).exCtrl) = true
    rw [hex, hcond]
    rfl
  have hpipe := Pipe.delivers (fun n => (r.st n).unitPipe (r.unit t))
    (fun n => ⟨((r.st n).unitIn (r.unit t)).valid,
      u.result (u.lt (r.st n).fpiu) ((r.st n).unitIn (r.unit t)).bits (r.unit t)⟩)
    (fun n => congrArg (fun s => unitPipe s (r.unit t)) (st_succ n)) hin.1
    ((r.unit t).latency conf - 2)
  have hdue : r.due t = t + 1 + 1 + ((r.unit t).latency conf - 2) := by
    rw [due]
    omega
  rw [unitOut, hdue, hpipe.2, hin.2]

/-- `FPToInt` has the operands of the instruction whose result depends on it. -/
theorem result_eq (h : r.Reaches t) :
    u.result (u.lt (r.st (t + 1)).fpiu) ((r.st t).unitReq (r.inp t) (r.unit t)) (r.unit t) =
      u.result (u.lt ((r.st t).req (r.inp t))) ((r.st t).unitReq (r.inp t) (r.unit t))
        (r.unit t) := by
  obtain ⟨hex, -, -⟩ := mem_of_reaches h
  obtain ⟨d, hd⟩ := ex_decoded hex
  have hunit := unitOf_of_reaches h
  cases hname : r.unit t with
  | ifpu => rfl
  | sfma => rfl
  | dfma => rfl
  | fpmu =>
    rw [hname, hd] at hunit
    have hcmd : ((r.st t).unitReq (r.inp t) .fpmu).sigs.cmd = d.cmd := by
      show (r.st t).exCtrl.cmd = d.cmd
      rw [hd]
      rfl
    rw [FPUUnits.result, FPUUnits.result, hcmd]
    rcases cmd_of_fastpipe d hunit with hconv | hsgnj | hminmax
    · rw [if_pos hconv, if_pos hconv]
    · rw [if_pos hsgnj, if_pos hsgnj]
    · have hfpiu : (r.st (t + 1)).fpiu = (r.st t).req (r.inp t) := by
        rw [st_succ]
        refine if_pos ?_
        rw [hex, hd, Bool.true_and, show d.sigs.cmd = d.cmd from rfl, hminmax, Bool.or_true]
      rw [hfpiu]

/-- The port, in the cycle in which an instruction is due. -/
theorem resultPort_of_leaves (h : r.Leaves t) :
    (r.st (r.due t)).resultPort conf = some (r.written t) := by
  have htwo := two_le_latency conf (r.unit t)
  have hlt : t + 1 < r.due t := by
    rw [due]
    omega
  have hbit : (r.st (r.due t)).wen.testBit 0 = true := (wen_testBit_iff _ _).mpr ⟨t, h, hlt, rfl⟩
  have hinfo : (r.st (r.due t)).winfo 0 =
      Bits.cat (r.unit t).index 5 (FPUState.rd (r.st t).exRegInst) := winfo_eq h hlt rfl
  have hrd : FPUState.rd (r.st t).exRegInst < 2 ^ 5 := BitVec.isLt _
  obtain ⟨hex, -, -⟩ := mem_of_reaches h.1
  rw [resultPort, if_pos hbit, FPUState.wsrc, waddr, hinfo, Bits.cat_div hrd,
    Bits.cat_mod hrd, index_lt, Option.map_some, unitOut_eq hex (unitOf_of_reaches h.1),
    result_eq h.1]
  rfl

end FPURun

/-- **The write port has one master at a time.** Of two instructions that leave the memory stage for
their units no two are due in the same cycle, each writes the result of its unit on its operands to
its destination when it is due, and nothing else is written. -/
theorem fpu_write_port (conf : FPUConfig) (u : FPUUnits) (r : FPURun conf u) :
    (∀ t t', r.Leaves t → r.Leaves t' → r.due t = r.due t' → t = t') ∧
      (∀ t, r.Leaves t → (r.st (r.due t)).resultPort conf = some (r.written t)) ∧
      (∀ n, (r.st n).resultPort conf ≠ none → ∃ t, r.Leaves t ∧ r.due t = n) := by
  refine ⟨fun t t' h h' => FPURun.due_inj h h', fun t h => FPURun.resultPort_of_leaves h, ?_⟩
  intro n hport
  have hbit : (r.st n).wen.testBit 0 = true := by
    by_contra hno
    exact hport (if_neg hno)
  obtain ⟨t, ht, -, hdue⟩ := (FPURun.wen_testBit_iff n 0).mp hbit
  exact ⟨t, ht, hdue⟩

end RiscvSoc
