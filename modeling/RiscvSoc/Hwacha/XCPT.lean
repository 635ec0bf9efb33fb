import RiscvSoc.Lib.Machine

/-!
# The exception sequencer of the vector unit

`XCPT` from `hwacha/src/main/scala/xcpt.scala`. An exception stops the vector unit, which is drained
and flushed. Then its state is evacuated to memory or killed, whichever the scalar core asks for. A
hold stops the unit without draining it, until the core lets it go.

All conditions are about the registers before the edge, and the later of two assignments wins. In
`NORMAL` a hold wins over an exception that comes in the same cycle: the exception has raised
`hold_top` by then, and `HOLD` does not lower it. Nor does any state but `NORMAL` look at
`io.rocc.exception`.
-/

namespace RiscvSoc

/-! ### What came since -/

/-- There was a `P` before `t`, and no `Q` after it. -/
def Since (P Q : ℕ → Prop) (t : ℕ) : Prop := ∃ v < t, P v ∧ ∀ w, v < w → w < t → ¬Q w

variable {P Q : ℕ → Prop} {t : ℕ}

theorem since_self (h : P t) : Since P Q (t + 1) :=
  ⟨t, Nat.lt_succ_self t, h, fun _ hvw hwt => absurd (Nat.le_of_lt_succ hwt) (Nat.not_le.mpr hvw)⟩

theorem Since.succ (h : Since P Q t) (hQ : ¬Q t) : Since P Q (t + 1) := by
  obtain ⟨v, hv, hP, hno⟩ := h
  refine ⟨v, Nat.lt_succ_of_lt hv, hP, fun w hvw hwt => ?_⟩
  rcases Nat.lt_succ_iff_lt_or_eq.mp hwt with hlt | rfl
  · exact hno w hvw hlt
  · exact hQ

namespace Hwacha

inductive XCPTState
  | normal | xcptDrain | xcptFlush | xcptEvac | xcptDrainEvac | hold
  deriving DecidableEq

/-- `io.rocc` and `io.vu.report`. -/
structure XCPTIn where
  exception : Bool
  evac : Bool
  evacAddr : BitVec 64
  hold : Bool
  kill : Bool
  expEmpty : Bool
  mrtPending : Bool
  evacDone : Bool

/-- `io.vu.prop`. -/
structure XCPTProp where
  busy : Bool
  flushTop : Bool
  flushKill : Bool
  flushAiw : Bool
  flushVxu : Bool
  flushVru : Bool
  flushVmu : Bool
  topStall : Bool
  issueStall : Bool
  seqStall : Bool
  vmuStall : Bool
  vmuDrain : Bool
  evacStart : Bool
  evacAddr : BitVec 64

structure XCPT where
  holdTop : Bool
  holdVu : Bool
  holdTlb : Bool
  state : XCPTState
  addr : BitVec 64
  evac : Bool
  kill : Bool

namespace XCPT

def reset : XCPT := ⟨false, false, false, .normal, 0, false, false⟩

section

variable (s : XCPT) (i : XCPTIn)

def prop : XCPTProp where
  busy := s.state != .normal && s.state != .hold
  flushTop := s.state == .xcptFlush
  flushKill := s.state == .xcptFlush && s.kill
  flushAiw := s.state == .xcptFlush && s.kill
  flushVxu := s.state == .xcptFlush
  flushVru := s.state == .xcptFlush
  flushVmu := s.state == .xcptFlush
  topStall := s.holdTop
  issueStall := s.holdVu
  seqStall := s.holdVu
  vmuStall := s.holdTlb
  vmuDrain := s.state == .xcptEvac || s.state == .xcptDrainEvac
  evacStart := s.state == .xcptEvac
  evacAddr := s.addr

/-- The requests of the core are noted in any state. -/
def note : XCPT :=
  let n := if i.evac then { s with evac := true, addr := i.evacAddr } else s
  if i.kill then { n with kill := true } else n

/-- One cycle. -/
def next : XCPT :=
  let n := s.note i
  match s.state with
  | .normal =>
    let n := if i.exception then
        { n with
          holdTop := true
          holdVu := true
          holdTlb := true
          evac := false
          kill := false
          state := .xcptDrain }
      else n
    if i.hold then { n with holdVu := true, holdTlb := true, state := .hold } else n
  | .xcptDrain =>
    if i.expEmpty && !i.mrtPending then { n with holdTop := false, state := .xcptFlush } else n
  | .xcptFlush =>
    let n := if s.evac then { n with holdTlb := false, state := .xcptEvac } else n
    if s.kill then { n with holdVu := false, holdTlb := false, kill := false, state := .normal }
    else n
  | .xcptEvac => if i.evacDone then { n with state := .xcptDrainEvac } else n
  | .xcptDrainEvac =>
    if i.mrtPending then n
    else { n with holdVu := false, holdTlb := false, evac := false, state := .normal }
  | .hold => if i.hold then n else { n with holdVu := false, holdTlb := false, state := .normal }

end

def machine : Machine XCPT XCPTIn := Machine.clocked (· = reset) next

/-! ### What is to hold -/

/-- What is to hold of a run at moment `t`. -/
structure Orderly (x : ℕ → XCPT) (i : ℕ → XCPTIn) (t : ℕ) : Prop where
  /-- Nothing is held in the normal state. -/
  released : (x t).state = .normal →
    (x t).prop.topStall = false ∧ (x t).prop.issueStall = false ∧ (x t).prop.vmuStall = false
  /-- An exception is followed by a flush before issue resumes. -/
  flushed : ∀ u < t, (i u).exception = true → (x t).prop.issueStall = false →
    ∃ v, u < v ∧ v < t ∧ (x v).prop.flushTop = true
  /-- The address of an evacuation is that of the request that came last. -/
  address : (x t).prop.evacStart = true →
    Since (fun v => (i v).evac = true ∧ (i v).evacAddr = (x t).prop.evacAddr)
      (fun v => (i v).evac = true) t
  /-- An evacuation was asked for since the last exception. -/
  evacuates : (x t).prop.evacStart = true →
    Since (fun v => (i v).evac = true) (fun v => (i v).exception = true) t
  /-- And so was a kill. -/
  kills : (x t).prop.flushKill = true →
    Since (fun v => (i v).kill = true) (fun v => (i v).exception = true) t

/-- An exception comes in the normal state and without a hold, or while the unit is drained and
flushed for another one and neither an evacuation nor a kill was asked for yet. -/
def Timely (s : XCPT) (i : XCPTIn) : Prop :=
  i.exception = true → s.state = .normal ∧ i.hold = false ∨
    (s.state = .xcptDrain ∨ s.state = .xcptFlush) ∧ s.evac = false ∧ s.kill = false

/-! ### One cycle -/

variable {s : XCPT} {i : XCPTIn}

@[simp] theorem note_eq : s.note i = { s with
    addr := if i.evac then i.evacAddr else s.addr
    evac := i.evac || s.evac
    kill := i.kill || s.kill } := by
  simp only [note]
  split <;> split <;> simp_all

theorem note_state : (s.note i).state = s.state :=
  congrArg (·.state) note_eq

theorem note_addr : (s.note i).addr = if i.evac then i.evacAddr else s.addr :=
  congrArg (·.addr) note_eq

theorem note_evac : (s.note i).evac = (i.evac || s.evac) :=
  congrArg (·.evac) note_eq

theorem note_kill : (s.note i).kill = (i.kill || s.kill) :=
  congrArg (·.kill) note_eq

/-- What a cycle can do. -/
inductive Step (s : XCPT) (i : XCPTIn) : XCPT → Prop
  | idle : s.state = .normal → i.exception = false → i.hold = false → Step s i (s.note i)
  | start : s.state = .normal → i.exception = true → i.hold = false → Step s i { s.note i with
      holdTop := true
      holdVu := true
      holdTlb := true
      evac := false
      kill := false
      state := .xcptDrain }
  | hold : s.state = .normal → i.hold = true → Step s i { s.note i with
      holdTop := s.holdTop || i.exception
      holdVu := true
      holdTlb := true
      evac := (s.note i).evac && !i.exception
      kill := (s.note i).kill && !i.exception
      state := .hold }
  | stay : s.state ≠ .normal → (s.state = .xcptFlush → s.evac = false ∧ s.kill = false) →
      Step s i (s.note i)
  | drained : s.state = .xcptDrain →
      Step s i { s.note i with holdTop := false, state := .xcptFlush }
  | killed : s.state = .xcptFlush → s.kill = true → Step s i { s.note i with
      holdVu := false
      holdTlb := false
      kill := false
      state := .normal }
  | evacuate : s.state = .xcptFlush → s.evac = true → s.kill = false →
      Step s i { s.note i with holdTlb := false, state := .xcptEvac }
  | evacuated : s.state = .xcptEvac → Step s i { s.note i with state := .xcptDrainEvac }
  | finish : s.state = .xcptDrainEvac → Step s i { s.note i with
      holdVu := false
      holdTlb := false
      evac := false
      state := .normal }
  | release : s.state = .hold →
      Step s i { s.note i with holdVu := false, holdTlb := false, state := .normal }

theorem step_next (s : XCPT) (i : XCPTIn) : Step s i (s.next i) := by
  cases hs : s.state with
  | normal =>
    simp only [next, hs]
    cases hhold : i.hold with
    | false =>
      cases hexc : i.exception with
      | false => exact .idle hs hexc hhold
      | true => exact .start hs hexc hhold
    | true =>
      have h := Step.hold (s := s) hs hhold
      cases hexc : i.exception with
      | false => simpa [hexc] using h
      | true => simpa [hexc] using h
  | xcptDrain =>
    simp only [next, hs]
    split
    · exact .drained hs
    · exact .stay (by rw [hs]; decide) fun h => absurd (hs.symm.trans h) (by decide)
  | xcptFlush =>
    simp only [next, hs]
    cases hkill : s.kill with
    | true =>
      have h := Step.killed (i := i) hs hkill
      cases s.evac <;> exact h
    | false =>
      cases hevac : s.evac with
      | true => exact .evacuate hs hevac hkill
      | false => exact .stay (by rw [hs]; decide) fun _ => ⟨hevac, hkill⟩
  | xcptEvac =>
    simp only [next, hs]
    split
    · exact .evacuated hs
    · exact .stay (by rw [hs]; decide) fun h => absurd (hs.symm.trans h) (by decide)
  | xcptDrainEvac =>
    simp only [next, hs]
    split
    · exact .stay (by rw [hs]; decide) fun h => absurd (hs.symm.trans h) (by decide)
    · exact .finish hs
  | hold =>
    simp only [next, hs]
    split
    · exact .stay (by rw [hs]; decide) fun h => absurd (hs.symm.trans h) (by decide)
    · exact .release hs

/-! ### What is held -/

/-- Each state holds what belongs to it. -/
structure Held (s : XCPT) : Prop where
  top : s.holdTop = (s.state == .xcptDrain)
  vu : s.holdVu = (s.state != .normal)
  tlb : s.holdTlb = (s.state == .xcptDrain || s.state == .xcptFlush || s.state == .hold)

theorem Held.step {s' : XCPT} (h : s.Held) (hok : Timely s i) (hstep : Step s i s') : s'.Held := by
  obtain ⟨htop, hvu, htlb⟩ := h
  cases hstep with
  | idle hs | stay hs =>
    exact ⟨by simpa using htop, by simpa using hvu, by simpa using htlb⟩
  | start hs => exact ⟨rfl, rfl, rfl⟩
  | hold hs hhold =>
    have hexc : i.exception = false := by
      rw [← Bool.not_eq_true]
      intro hexc
      have hwhen := hok hexc
      simp [hs, hhold] at hwhen
    rw [hs] at htop
    exact ⟨by simp [htop, hexc], rfl, rfl⟩
  | drained hs | killed hs | evacuate hs | evacuated hs | finish hs | release hs =>
    rw [hs] at htop hvu htlb
    constructor <;> simp [htop, hvu, htlb] <;> rfl

/-! ### Runs -/

variable {x : ℕ → XCPT} {j : ℕ → XCPTIn} {t : ℕ}

/-- What is known of a run at moment `t`. -/
structure Inv (x : ℕ → XCPT) (i : ℕ → XCPTIn) (t : ℕ) : Prop where
  held : (x t).Held
  flushed : ∀ u < t, (i u).exception = true →
    (∃ v, u < v ∧ v < t ∧ (x v).state = .xcptFlush) ∨
      (x t).state = .xcptDrain ∨ (x t).state = .xcptFlush
  evacSet : (x t).state = .xcptEvac ∨ (x t).state = .xcptDrainEvac → (x t).evac = true
  address : (x t).evac = true → Since (fun v => (i v).evac = true ∧ (i v).evacAddr = (x t).addr)
    (fun v => (i v).evac = true) t
  evacuates : (x t).state ≠ .normal → (x t).state ≠ .hold → (x t).evac = true →
    Since (fun v => (i v).evac = true) (fun v => (i v).exception = true) t
  kills : (x t).state ≠ .normal → (x t).state ≠ .hold → (x t).kill = true →
    Since (fun v => (i v).kill = true) (fun v => (i v).exception = true) t

section

variable {s' : XCPT} (hstep : Step s i s')

include hstep

theorem Step.addr_eq : s'.addr = if i.evac then i.evacAddr else s.addr := by
  rw [← note_addr]
  cases hstep <;> rfl

/-- A flag that is up after a cycle was up before, or it is raised in it. -/
theorem Step.evac_or (h : s'.evac = true) : i.evac = true ∨ s.evac = true := by
  rw [← Bool.or_eq_true, ← note_evac]
  cases hstep with
  | start | finish => cases h
  | hold => exact (Bool.and_eq_true_iff.mp h).1
  | _ => exact h

theorem Step.state_of_start (hs : s.state = .normal) (hexc : i.exception = true)
    (hhold : i.hold = false) : s'.state = .xcptDrain := by
  cases hstep with
  | start => rfl
  | idle _ h => rw [hexc] at h; cases h
  | hold _ h => rw [hhold] at h; cases h
  | stay h => exact absurd hs h
  | drained h | killed h | evacuate h | evacuated h | finish h | release h =>
    rw [hs] at h
    cases h

theorem Step.state_of_drain (hs : s.state = .xcptDrain) :
    s'.state = .xcptDrain ∨ s'.state = .xcptFlush := by
  cases hstep with
  | stay => exact .inl (note_state.trans hs)
  | drained => exact .inr rfl
  | idle h | start h | hold h | killed h | evacuate h | evacuated h | finish h | release h =>
    rw [hs] at h
    cases h

theorem Step.state_of_wait (hs : s.state = .xcptFlush) (hevac : s.evac = false)
    (hkill : s.kill = false) : s'.state = .xcptFlush := by
  cases hstep with
  | stay => exact note_state.trans hs
  | killed _ h => rw [hkill] at h; cases h
  | evacuate _ h => rw [hevac] at h; cases h
  | drained => rfl
  | idle h | start h | hold h | evacuated h | finish h | release h =>
    rw [hs] at h
    cases h

/-- Neither flag is looked at in `NORMAL` and in `HOLD`, and an exception lowers both when it leads
out of there. -/
theorem Step.state_ne (hs' : s'.state ≠ .normal) (hh' : s'.state ≠ .hold)
    (hflag : s'.evac = true ∨ s'.kill = true) : s.state ≠ .normal ∧ s.state ≠ .hold := by
  cases hstep with
  | idle hs => exact absurd (note_state.trans hs) hs'
  | start => exact hflag.elim nofun nofun
  | hold => exact absurd rfl hh'
  | stay hs =>
    rw [note_state] at hh'
    exact ⟨hs, hh'⟩
  | killed | finish | release => exact absurd rfl hs'
  | drained hs | evacuate hs | evacuated hs => rw [hs]; exact ⟨nofun, nofun⟩

theorem Step.evacSet (h : s.state = .xcptEvac ∨ s.state = .xcptDrainEvac → s.evac = true)
    (hs' : s'.state = .xcptEvac ∨ s'.state = .xcptDrainEvac) : s'.evac = true := by
  cases hstep with
  | idle | stay =>
    rw [note_state] at hs'
    rw [note_evac, h hs', Bool.or_true]
  | start | hold | drained | killed | finish | release => exact hs'.elim nofun nofun
  | evacuate _ hevac => exact note_evac.trans (by rw [hevac, Bool.or_true])
  | evacuated hs => exact note_evac.trans (by rw [h (.inl hs), Bool.or_true])

theorem Step.kill_or (h : s'.kill = true) : i.kill = true ∨ s.kill = true := by
  rw [← Bool.or_eq_true, ← note_kill]
  cases hstep with
  | start | killed => cases h
  | hold => exact (Bool.and_eq_true_iff.mp h).1
  | _ => exact h

end

theorem Inv.address_next (h : Inv x j t) (hstep : Step (x t) (j t) (x (t + 1)))
    (hevac : (x (t + 1)).evac = true) :
    Since (fun v => (j v).evac = true ∧ (j v).evacAddr = (x (t + 1)).addr)
      (fun v => (j v).evac = true) (t + 1) := by
  rw [hstep.addr_eq]
  by_cases hasked : (j t).evac = true
  · exact since_self ⟨hasked, by rw [if_pos hasked]⟩
  · rw [if_neg hasked]
    exact (h.address ((hstep.evac_or hevac).resolve_left hasked)).succ hasked

/-- An exception is taken at once, or it comes before the flush. -/
theorem Inv.flushed_next (h : Inv x j t) (hok : Timely (x t) (j t))
    (hstep : Step (x t) (j t) (x (t + 1))) {u : ℕ} (hu : u < t + 1)
    (hexc : (j u).exception = true) :
    (∃ v, u < v ∧ v < t + 1 ∧ (x v).state = .xcptFlush) ∨
      (x (t + 1)).state = .xcptDrain ∨ (x (t + 1)).state = .xcptFlush := by
  rcases Nat.lt_succ_iff_lt_or_eq.mp hu with hlt | rfl
  · rcases h.flushed u hlt hexc with ⟨v, huv, hvt, hv⟩ | hdrain | hflush
    · exact .inl ⟨v, huv, Nat.lt_succ_of_lt hvt, hv⟩
    · exact .inr (hstep.state_of_drain hdrain)
    · exact .inl ⟨t, hlt, Nat.lt_succ_self t, hflush⟩
  · right
    rcases hok hexc with ⟨hnormal, hhold⟩ | ⟨hdrain | hflush, hevac, hkill⟩
    · exact .inl (hstep.state_of_start hnormal hexc hhold)
    · exact hstep.state_of_drain hdrain
    · exact .inr (hstep.state_of_wait hflush hevac hkill)

/-- No exception comes while a flag is up that is looked at. -/
theorem Timely.exception_eq_false (hok : Timely s i) (hstate : s.state ≠ .normal)
    (hflag : s.evac = true ∨ s.kill = true) : i.exception = false := by
  rw [← Bool.not_eq_true]
  intro hexc
  rcases hok hexc with ⟨hnormal, -⟩ | ⟨-, hevac, hkill⟩
  · exact hstate hnormal
  · rw [hevac, hkill] at hflag
    exact hflag.elim nofun nofun

section

variable (h : Inv x j t) (hok : Timely (x t) (j t)) (hstep : Step (x t) (j t) (x (t + 1)))
  (hnormal : (x (t + 1)).state ≠ .normal) (hhold : (x (t + 1)).state ≠ .hold)
include h hok hstep hnormal hhold

theorem Inv.evacuates_next (hevac : (x (t + 1)).evac = true) :
    Since (fun v => (j v).evac = true) (fun v => (j v).exception = true) (t + 1) := by
  obtain ⟨hn, hh⟩ := hstep.state_ne hnormal hhold (.inl hevac)
  rcases hstep.evac_or hevac with hasked | hflag
  · exact since_self hasked
  · have hexc := hok.exception_eq_false hn (.inl hflag)
    exact (h.evacuates hn hh hflag).succ (by rw [hexc]; nofun)

theorem Inv.kills_next (hkill : (x (t + 1)).kill = true) :
    Since (fun v => (j v).kill = true) (fun v => (j v).exception = true) (t + 1) := by
  obtain ⟨hn, hh⟩ := hstep.state_ne hnormal hhold (.inr hkill)
  rcases hstep.kill_or hkill with hasked | hflag
  · exact since_self hasked
  · have hexc := hok.exception_eq_false hn (.inr hflag)
    exact (h.kills hn hh hflag).succ (by rw [hexc]; nofun)

end

theorem Inv.next (h : Inv x j t) (hok : Timely (x t) (j t))
    (hx : x (t + 1) = (x t).next (j t)) : Inv x j (t + 1) := by
  have hstep := step_next (x t) (j t)
  rw [← hx] at hstep
  exact {
    held := h.held.step hok hstep
    flushed := fun u hu hexc => h.flushed_next hok hstep hu hexc
    evacSet := hstep.evacSet h.evacSet
    address := h.address_next hstep
    evacuates := h.evacuates_next hok hstep
    kills := h.kills_next hok hstep }

theorem Inv.init (hx : x 0 = reset) : Inv x j 0 where
  held := by
    rw [hx]
    exact ⟨rfl, rfl, rfl⟩
  flushed u hu := absurd hu (Nat.not_lt_zero u)
  evacSet h := by
    rw [hx] at h
    exact h.elim nofun nofun
  address h := by
    rw [hx] at h
    cases h
  evacuates _ _ h := by
    rw [hx] at h
    cases h
  kills _ _ h := by
    rw [hx] at h
    cases h

theorem inv_of_run (hrun : machine.Run x j) (hok : ∀ t, Timely (x t) (j t)) (t : ℕ) :
    Inv x j t := by
  induction t with
  | zero => exact .init hrun.init
  | succ t ih => exact ih.next (hok t) (hrun.step t)

theorem Inv.orderly_at (h : Inv x j t) : Orderly x j t where
  released hs := by
    have hheld := h.held
    refine ⟨hheld.top.trans ?_, hheld.vu.trans ?_, hheld.tlb.trans ?_⟩ <;> rw [hs] <;> rfl
  flushed u hu hexc hissue := by
    rcases h.flushed u hu hexc with ⟨v, huv, hvt, hv⟩ | hdrain | hflush
    · exact ⟨v, huv, hvt, beq_iff_eq.mpr hv⟩
    · have hvu := h.held.vu.symm.trans hissue
      rw [hdrain] at hvu
      cases hvu
    · have hvu := h.held.vu.symm.trans hissue
      rw [hflush] at hvu
      cases hvu
  address hstart := h.address (h.evacSet (.inl (beq_iff_eq.mp hstart)))
  evacuates hstart := by
    have hs : (x t).state = .xcptEvac := beq_iff_eq.mp hstart
    exact h.evacuates (by rw [hs]; nofun) (by rw [hs]; nofun) (h.evacSet (.inl hs))
  kills hkill := by
    obtain ⟨hflush, hflag⟩ := Bool.and_eq_true_iff.mp hkill
    have hs : (x t).state = .xcptFlush := beq_iff_eq.mp hflush
    exact h.kills (by rw [hs]; nofun) (by rw [hs]; nofun) hflag

/-- **The sequencer is orderly** in every run in which each exception is timely. -/
theorem orderly (hrun : machine.Run x j) (hok : ∀ t, Timely (x t) (j t)) (t : ℕ) :
    Orderly x j t :=
  (inv_of_run hrun hok t).orderly_at

/-! ### An exception together with a hold -/

def noRequest : XCPTIn := ⟨false, false, 0, false, false, true, false, false⟩

/-- Runs from reset. -/
def states (i : ℕ → XCPTIn) : ℕ → XCPT
  | 0 => reset
  | t + 1 => (states i t).next (i t)

theorem run_states (i : ℕ → XCPTIn) : machine.Run (states i) i := ⟨rfl, fun _ => rfl⟩

/-- An exception and a hold come in the first cycle, then nothing more. -/
def excAndHold (t : ℕ) : XCPTIn :=
  if t = 0 then { noRequest with exception := true, hold := true } else noRequest

/-- **The top hold stays.** Two cycles later the sequencer is in the normal state and the hold of
the top is up. -/
theorem not_orderly : ¬∀ (x : ℕ → XCPT) (i : ℕ → XCPTIn), machine.Run x i → ∀ t, Orderly x i t := by
  intro h
  have hat := (h _ _ (run_states excAndHold) 2).released rfl
  exact absurd hat.1 (by decide)

/-- An exception that is drained, and then an evacuation. -/
def excAndEvac (t : ℕ) : XCPTIn :=
  match t with
  | 0 => { noRequest with exception := true }
  | 1 => { noRequest with evac := true, evacAddr := 64 }
  | _ => noRequest

theorem orderly_excAndEvac :
    (∀ t, Orderly (states excAndEvac) excAndEvac t) ∧
      (states excAndEvac 3).prop.evacStart = true ∧
        (states excAndEvac 3).prop.evacAddr = 64 := by
  refine ⟨orderly (run_states excAndEvac) ?_, rfl, rfl⟩
  rintro (_ | _ | t) hexc
  · exact .inl ⟨rfl, rfl⟩
  · cases hexc
  · cases hexc

end XCPT

end Hwacha

end RiscvSoc
