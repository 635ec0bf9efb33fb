import Mathlib.Data.Nat.Find
import Mathlib.Logic.Function.Basic
import Mathlib.Logic.Relation

/-!
# State machines

A machine is a set of initial states and a labelled step relation. A clocked circuit is one whose
labels are its inputs of a cycle and whose step is a function; a message-passing system is one
whose labels say which party moves.

Nothing here knows about any particular system.
-/

namespace RiscvSoc

/-- Initial states and labelled steps. -/
structure Machine (σ α : Type) where
  init : σ → Prop
  step : σ → α → σ → Prop

namespace Machine

variable {σ α : Type} {M : Machine σ α}

/-- The states of all runs. -/
inductive Reachable (M : Machine σ α) : σ → Prop
  | init {s : σ} : M.init s → Reachable M s
  | step {s s' : σ} {a : α} : Reachable M s → M.step s a s' → Reachable M s'

/-- **The invariant rule.** The state before the step may be assumed reachable, so an invariant can
build on one that is already proved. -/
theorem invariant {I : σ → Prop} (hinit : ∀ s, M.init s → I s)
    (hstep : ∀ s a s', M.Reachable s → I s → M.step s a s' → I s') :
    ∀ s, M.Reachable s → I s := by
  intro s hs
  induction hs with
  | init h => exact hinit _ h
  | step hr h ih => exact hstep _ _ _ hr ih h

/-- An infinite run: a state and a label for every moment. -/
structure Run (M : Machine σ α) (st : ℕ → σ) (lab : ℕ → α) : Prop where
  init : M.init (st 0)
  step : ∀ t, M.step (st t) (lab t) (st (t + 1))

theorem Run.reachable {st : ℕ → σ} {lab : ℕ → α} (h : M.Run st lab) (t : ℕ) :
    M.Reachable (st t) := by
  induction t with
  | zero => exact .init h.init
  | succ t ih => exact .step ih (h.step t)

/-- What stays until something happens is still there when it happens. -/
theorem exists_of_stays {P E : ℕ → Prop} {t : ℕ} (hP : P t) (hstay : ∀ u, P u → ¬E u → P (u + 1))
    (hE : ∃ u ≥ t, E u) : ∃ u ≥ t, P u ∧ E u := by
  by_contra hno
  have hall : ∀ k, P (t + k) := by
    intro k
    induction k with
    | zero => exact hP
    | succ k ih => exact hstay (t + k) ih fun he => hno ⟨t + k, Nat.le_add_right t k, ih, he⟩
  obtain ⟨u, hu, he⟩ := hE
  have hPu := hall (u - t)
  rw [Nat.add_sub_cancel' hu] at hPu
  exact hno ⟨u, hu, hPu, he⟩

theorem exists_of_next {P E Q : ℕ → Prop} {t : ℕ} (hP : P t)
    (hstep : ∀ u, P u → ¬E u ∧ P (u + 1) ∨ Q (u + 1)) (hE : ∃ u ≥ t, E u) : ∃ u ≥ t, Q u := by
  by_contra hno
  obtain ⟨u, hu, hPu, hEu⟩ := exists_of_stays (P := fun u => t ≤ u ∧ P u) ⟨le_rfl, hP⟩
    (fun u hPu _ => ⟨Nat.le_succ_of_le hPu.1, ((hstep u hPu.2).resolve_right fun hQ =>
      hno ⟨u + 1, Nat.le_succ_of_le hPu.1, hQ⟩).2⟩) hE
  rcases hstep u hPu.2 with h | hQ
  · exact h.1 hEu
  · exact hno ⟨u + 1, Nat.le_succ_of_le hu, hQ⟩

/-- What happens from some time on happens for a first time. -/
theorem exists_first {E : ℕ → Prop} {t : ℕ} (h : ∃ u ≥ t, E u) :
    ∃ n, E (t + n) ∧ ∀ v ≥ t, v < t + n → ¬E v := by
  classical
  have hex : ∃ n, E (t + n) := by
    obtain ⟨u, hu, he⟩ := h
    exact ⟨u - t, by rwa [Nat.add_sub_cancel' hu]⟩
  refine ⟨Nat.find hex, Nat.find_spec hex, fun v hv hlt he => ?_⟩
  have hmin := Nat.find_min hex (Nat.sub_lt_left_of_lt_add hv hlt)
  rw [Nat.add_sub_cancel' hv] at hmin
  exact hmin he

/-- The same machine, allowed only those steps that meet `ok`. -/
def restrict (M : Machine σ α) (ok : σ → α → Prop) : Machine σ α where
  init := M.init
  step s a s' := ok s a ∧ M.step s a s'

theorem Reachable.of_restrict {ok : σ → α → Prop} {s : σ} (h : (M.restrict ok).Reachable s) :
    M.Reachable s := by
  induction h with
  | init h => exact .init h
  | step _ h ih => exact .step ih h.2

/-! ### History variables -/

variable {γ : Type}

/-- The same machine next to a history variable, which starts at `h₀` and sees every step. -/
def observe (M : Machine σ α) (h₀ : γ) (upd : σ → α → γ → γ) : Machine (σ × γ) α where
  init s := M.init s.1 ∧ s.2 = h₀
  step s a s' := M.step s.1 a s'.1 ∧ s'.2 = upd s.1 a s.2

variable {h₀ : γ} {upd : σ → α → γ → γ}

theorem Reachable.of_observe {s : σ × γ} (h : (M.observe h₀ upd).Reachable s) :
    M.Reachable s.1 := by
  induction h with
  | init h => exact .init h.1
  | step _ h ih => exact .step ih h.1

/-! ### Machines side by side -/

/-- Copies of a machine that take turns. -/
def interleave (ι : Type) [DecidableEq ι] (M : Machine σ α) : Machine (ι → σ) (ι × α) where
  init s := ∀ i, M.init (s i)
  step s a s' := ∃ x, M.step (s a.1) a.2 x ∧ s' = Function.update s a.1 x

theorem Reachable.of_interleave {ι : Type} [DecidableEq ι] {s : ι → σ}
    (h : (M.interleave ι).Reachable s) (i : ι) : M.Reachable (s i) := by
  induction h with
  | init h => exact .init (h i)
  | @step s s' a _ h ih =>
    obtain ⟨x, hx, rfl⟩ := h
    by_cases hi : i = a.1
    · subst hi
      rw [Function.update_self]
      exact .step ih hx
    · rw [Function.update_of_ne hi]
      exact ih

/-! ### Executable machines -/

variable {f : α → σ → Option σ}

/-- Executing a list of labels. -/
def runs (f : α → σ → Option σ) : List α → σ → Option σ
  | [], s => some s
  | a :: as, s => (f a s).bind (runs f as)

/-- The machine of a partial step function. -/
def ofFun (init : σ → Prop) (f : α → σ → Option σ) : Machine σ α where
  init := init
  step s a s' := f a s = some s'

variable {init : σ → Prop} {s s' : σ} {as : List α} {next : σ → α → σ} {ok : σ × γ → α → Prop}

theorem Reachable.exec (hs : (ofFun init f).Reachable s) (a : α)
    (h : f a s = some s') : (ofFun init f).Reachable s' :=
  .step hs h

/-- What a run computes is reachable. -/
theorem reachable_of_runs (hs : (ofFun init f).Reachable s) (h : runs f as s = some s') :
    (ofFun init f).Reachable s' := by
  induction as generalizing s with
  | nil =>
    cases h
    exact hs
  | cons a as ih =>
    obtain ⟨t, ht, hrest⟩ := Option.bind_eq_some_iff.mp h
    exact ih (hs.exec a ht) hrest

/-- The same for a restricted machine, when the labels meet the condition in any state. -/
theorem reachable_restrict_of_runs {ok : σ → α → Prop}
    (hok : ∀ a ∈ as, ∀ s, ok s a) (hs : ((ofFun init f).restrict ok).Reachable s)
    (h : runs f as s = some s') : ((ofFun init f).restrict ok).Reachable s' := by
  induction as generalizing s with
  | nil =>
    cases h
    exact hs
  | cons a as ih =>
    obtain ⟨t, ht, hrest⟩ := Option.bind_eq_some_iff.mp h
    exact ih (fun b hb => hok b (List.mem_cons_of_mem a hb))
      (.step hs ⟨hok a List.mem_cons_self s, ht⟩) hrest

/-- The machine of a circuit: a label is the inputs of one cycle, and no input is refused. -/
def clocked (init : σ → Prop) (next : σ → α → σ) : Machine σ α where
  init := init
  step s a s' := s' = next s a

theorem exists_run {s : σ} (hs : init s) (lab : ℕ → α) :
    ∃ st, ((clocked init next).observe h₀ upd).Run st lab ∧ st 0 = (s, h₀) := by
  let st : ℕ → σ × γ := fun t =>
    Nat.rec (s, h₀) (fun t x => (next x.1 (lab t), upd x.1 (lab t) x.2)) t
  exact ⟨st, ⟨⟨hs, rfl⟩, fun _ => ⟨rfl, rfl⟩⟩, rfl⟩

/-- A circuit and its history after a list of cycles. -/
def cycles (next : σ → α → σ) (upd : σ → α → γ → γ) (as : List α) (s : σ × γ) : σ × γ :=
  as.foldl (fun s a => (next s.1 a, upd s.1 a s.2)) s

theorem reachable_cycles {s : σ × γ} (hs : ((clocked init next).observe h₀ upd).Reachable s)
    (as : List α) :
    ((clocked init next).observe h₀ upd).Reachable (cycles next upd as s) := by
  induction as generalizing s with
  | nil => exact hs
  | cons a as ih => exact ih (.step hs ⟨rfl, rfl⟩)

/-- Every cycle meets the condition in the state it comes in. -/
def CyclesOk (ok : σ × γ → α → Prop) (next : σ → α → σ) (upd : σ → α → γ → γ) :
    List α → σ × γ → Prop
  | [], _ => True
  | a :: as, s => ok s a ∧ CyclesOk ok next upd as (next s.1 a, upd s.1 a s.2)

instance decidableCyclesOk {ok : σ × γ → α → Prop} [∀ s a, Decidable (ok s a)] {next : σ → α → σ} :
    ∀ as s, Decidable (CyclesOk ok next upd as s)
  | [], _ => .isTrue trivial
  | a :: as, s =>
    have : Decidable (CyclesOk ok next upd as (next s.1 a, upd s.1 a s.2)) :=
      decidableCyclesOk as _
    inferInstanceAs (Decidable (_ ∧ _))

theorem reachable_restrict_cycles {s : σ × γ}
    (hs : (((clocked init next).observe h₀ upd).restrict ok).Reachable s) (as : List α)
    (hok : CyclesOk ok next upd as s) :
    (((clocked init next).observe h₀ upd).restrict ok).Reachable (cycles next upd as s) := by
  induction as generalizing s with
  | nil => exact hs
  | cons a as ih => exact ih (.step hs ⟨hok.1, rfl, rfl⟩) hok.2

theorem CyclesOk.of_forall
    (hok : ∀ a ∈ as, ∀ s, ok s a) (s : σ × γ) : CyclesOk ok next upd as s := by
  induction as generalizing s with
  | nil => trivial
  | cons a as ih =>
    exact ⟨hok a List.mem_cons_self s, ih (fun b hb => hok b (List.mem_cons_of_mem a hb)) _⟩

end Machine

end RiscvSoc
