import Mathlib.Algebra.Group.Fin.Basic
import Mathlib.Algebra.GroupWithZero.Nat
import Mathlib.Logic.Function.Basic
import RiscvSoc.Lib.Machine

/-!
# First in, first out

A circuit with an entrance and an exit is a queue if, in each cycle, what it holds followed by what
enters is what leaves followed by what it holds afterwards. Two queues in a row are one again, and
over a whole run the equation says that nothing is lost, duplicated or reordered.

Most queues are a circular buffer: a memory, one pointer to the place that is filled next and one to
the place that is emptied next. When the pointers meet, the buffer is empty or full, and one more
bit says which of the two it is.
-/

namespace RiscvSoc

variable {α : Type}

/-! ### Queues -/

/-- One cycle of a queue that holds `held` before and `held'` after it. -/
def FifoStep (held entered left held' : List α) : Prop := held ++ entered = left ++ held'

theorem FifoStep.series {h₁ h₂ h₁' h₂' entered between left : List α}
    (first : FifoStep h₁ entered between h₁') (second : FifoStep h₂ between left h₂') :
    FifoStep (h₂ ++ h₁) entered left (h₂' ++ h₁') := by
  rw [FifoStep] at first second ⊢
  calc h₂ ++ h₁ ++ entered
      = h₂ ++ (h₁ ++ entered) := List.append_assoc ..
    _ = h₂ ++ between ++ h₁' := by rw [first, List.append_assoc]
    _ = left ++ (h₂' ++ h₁') := by rw [second, List.append_assoc]

/-- What entered a queue so far, and what left it. -/
structure FifoLog (α : Type) where
  entered : List α
  left : List α

/-- The log goes on. -/
def FifoLog.note (log : FifoLog α) (entered left : List α) : FifoLog α :=
  ⟨log.entered ++ entered, log.left ++ left⟩

/-- Nothing is lost, duplicated or reordered. -/
def FifoLog.Conserves (log : FifoLog α) (held : List α) : Prop := log.entered = log.left ++ held

theorem FifoLog.Conserves.note {log : FifoLog α} {held entered left held' : List α}
    (h : log.Conserves held) (step : FifoStep held entered left held') :
    (log.note entered left).Conserves held' := by
  show log.entered ++ entered = log.left ++ left ++ held'
  rw [h, List.append_assoc, List.append_assoc]
  exact congrArg (log.left ++ ·) step

theorem FifoLog.Conserves.held_eq_nil {log : FifoLog α} {held : List α} (h : log.Conserves held)
    (hall : log.entered <+: log.left) : held = [] := by
  have hlen := hall.length_le
  rw [h, List.length_append] at hlen
  exact List.length_eq_zero_iff.mp (by omega)

variable (log : ℕ → FifoLog α)

section

variable (hnote : ∀ t, ∃ entered left, log (t + 1) = (log t).note entered left) {t u : ℕ}
  (h : t ≤ u)
include hnote h

theorem FifoLog.le_of_note :
    (log t).entered <+: (log u).entered ∧ (log t).left <+: (log u).left := by
  induction u, h using Nat.le_induction with
  | base => exact ⟨List.prefix_rfl, List.prefix_rfl⟩
  | succ u _ ih =>
    obtain ⟨entered, left, heq⟩ := hnote u
    rw [heq]
    exact ⟨ih.1.trans (List.prefix_append ..), ih.2.trans (List.prefix_append ..)⟩

/-- When something leaves, more has left than ever before. -/
theorem FifoLog.length_left_lt {entered left : List α}
    (hu : log (u + 1) = (log u).note entered left) (hne : left ≠ []) :
    (log t).left.length < (log (u + 1)).left.length := by
  have hle := (FifoLog.le_of_note log hnote h).2.length_le
  have hpos := List.length_pos_iff.mpr hne
  rw [hu, FifoLog.note, List.length_append]
  omega

end

/-- **A queue that keeps moving delivers everything.** It is enough that whenever it holds
something, something leaves it later. -/
theorem FifoLog.delivers (held : ℕ → List α)
    (hnote : ∀ t, ∃ entered left, log (t + 1) = (log t).note entered left)
    (hlog : ∀ t, (log t).Conserves (held t))
    (hmove : ∀ t, held t ≠ [] → ∃ u ≥ t, (log t).left.length < (log u).left.length) (t : ℕ) :
    ∃ u ≥ t, (log t).entered <+: (log u).left := by
  have hcount : ∀ k ≤ (log t).entered.length, ∃ u ≥ t, k ≤ (log u).left.length := by
    intro k
    induction k with
    | zero => exact fun _ => ⟨t, le_rfl, Nat.zero_le _⟩
    | succ k ih =>
      intro hk
      obtain ⟨u, hu, hleft⟩ := ih (by omega)
      by_cases hdone : k + 1 ≤ (log u).left.length
      · exact ⟨u, hu, hdone⟩
      · have hheld : held u ≠ [] := by
          intro hnil
          have hall : (log u).entered = (log u).left := by rw [hlog u, hnil, List.append_nil]
          have hlen := (FifoLog.le_of_note log hnote hu).1.length_le
          rw [hall] at hlen
          omega
        obtain ⟨v, hv, hlt⟩ := hmove u hheld
        exact ⟨v, hu.trans hv, by omega⟩
  obtain ⟨u, hu, hlen⟩ := hcount _ le_rfl
  refine ⟨u, hu, ?_⟩
  have hleft : (log u).left <+: (log u).entered := by
    rw [hlog u]
    exact List.prefix_append ..
  exact List.prefix_of_prefix_length_le (FifoLog.le_of_note log hnote hu).1 hleft hlen

/-- **The run rule for queues.** -/
theorem Machine.fifo {σ ι : Type} {init : σ → Prop} {next : σ → ι → σ} {held : σ → List α}
    {entered left : σ → ι → List α} {I : σ → Prop}
    (hI : ∀ s, (Machine.clocked init next).Reachable s → I s)
    (hinit : ∀ s, init s → held s = [])
    (hstep : ∀ s i, I s → FifoStep (held s) (entered s i) (left s i) (held (next s i))) :
    ∀ x, ((Machine.clocked init next).observe (⟨[], []⟩ : FifoLog α)
      fun s i log => log.note (entered s i) (left s i)).Reachable x → x.2.Conserves (held x.1) := by
  refine Machine.invariant ?_ ?_
  · rintro ⟨s, log⟩ ⟨hs, rfl⟩
    exact (hinit s hs).symm
  · rintro ⟨s, log⟩ i ⟨s', log'⟩ hreach hlog ⟨rfl, rfl⟩
    exact hlog.note (hstep s i (hI s hreach.of_observe))

/-! ### Circular memories -/

variable {n : ℕ} [NeZero n]

/-- The place `k` after place `p`. -/
def ringPlace (p : Fin n) (k : ℕ) : Fin n := p + Fin.ofNat n k

theorem ringPlace_zero (p : Fin n) : ringPlace p 0 = p := by
  rw [ringPlace, show Fin.ofNat n 0 = 0 from rfl, add_zero]

theorem ringPlace_succ (p : Fin n) (k : ℕ) : ringPlace p (k + 1) = ringPlace (p + 1) k := by
  rw [ringPlace, ringPlace, add_assoc]
  congr 1
  ext
  simp [Fin.val_add, Nat.add_comm]

theorem ringPlace_self (p : Fin n) : ringPlace p n = p := by
  rw [ringPlace, show Fin.ofNat n n = 0 from Fin.ext (by simp), add_zero]

theorem ringPlace_inj {p : Fin n} {j k : ℕ} (hj : j < n) (hk : k < n)
    (h : ringPlace p j = ringPlace p k) : j = k := by
  have heq := congrArg Fin.val (add_left_cancel h)
  rwa [Fin.val_ofNat, Fin.val_ofNat, Nat.mod_eq_of_lt hj, Nat.mod_eq_of_lt hk] at heq

/-- What is in `k` places, from place `p` on. -/
def ringSlice (ram : Fin n → α) : Fin n → ℕ → List α
  | _, 0 => []
  | p, k + 1 => ram p :: ringSlice ram (p + 1) k

variable {ram : Fin n → α}

theorem length_ringSlice (p : Fin n) (k : ℕ) : (ringSlice ram p k).length = k := by
  induction k generalizing p with
  | zero => rfl
  | succ k ih => rw [ringSlice, List.length_cons, ih]

theorem ringSlice_concat (p : Fin n) (k : ℕ) :
    ringSlice ram p (k + 1) = ringSlice ram p k ++ [ram (ringPlace p k)] := by
  induction k generalizing p with
  | zero => rw [ringPlace_zero]; rfl
  | succ k ih => rw [ringSlice, ih, ringPlace_succ]; rfl

theorem ringSlice_update {p q : Fin n} {k : ℕ} {x : α} (h : ∀ j < k, ringPlace p j ≠ q) :
    ringSlice (Function.update ram q x) p k = ringSlice ram p k := by
  induction k generalizing p with
  | zero => rfl
  | succ k ih =>
    have hne : p ≠ q := ringPlace_zero p ▸ h 0 k.succ_pos
    have hrest : ∀ j < k, ringPlace (p + 1) j ≠ q := by
      intro j hj
      rw [← ringPlace_succ]
      exact h (j + 1) (Nat.succ_lt_succ hj)
    rw [ringSlice, ringSlice, Function.update_of_ne hne, ih hrest]

/-! ### Pointers -/

/-- `enq_ptr`, `deq_ptr` and `maybe_full`. -/
structure RingPtrs (n : ℕ) where
  enq : Fin n
  deq : Fin n
  maybeFull : Bool

namespace RingPtrs

variable (p : RingPtrs n)

/-- `empty`. -/
def empty : Bool := decide (p.enq = p.deq) && !p.maybeFull

/-- `full`. -/
def full : Bool := decide (p.enq = p.deq) && p.maybeFull

/-- How many places are in use. -/
def count : ℕ := if p.enq = p.deq then if p.maybeFull then n else 0 else (p.enq - p.deq).val

/-- The pointers after a cycle. -/
def next (doEnq doDeq : Bool) : RingPtrs n where
  enq := if doEnq then p.enq + 1 else p.enq
  deq := if doDeq then p.deq + 1 else p.deq
  maybeFull := if doEnq != doDeq then doEnq else p.maybeFull

variable {p}

omit [NeZero n] in
theorem count_le : p.count ≤ n := by
  rw [count]
  split
  · split
    · exact le_rfl
    · exact Nat.zero_le n
  · exact (p.enq - p.deq).isLt.le

theorem enq_eq : p.enq = ringPlace p.deq p.count := by
  rw [count]
  split
  · rename_i h
    split
    · rw [ringPlace_self, h]
    · rw [ringPlace_zero, h]
  · rw [ringPlace, Fin.ofNat_val_eq_self, add_sub_cancel]

theorem empty_eq : p.empty = decide (p.count = 0) := by
  rw [empty, count]
  by_cases h : p.enq = p.deq
  · cases p.maybeFull <;> simp [h, NeZero.ne n]
  · have hne : (p.enq - p.deq).val ≠ 0 := fun h0 => h (sub_eq_zero.mp (Fin.ext h0))
    simp [h, hne]

theorem full_eq : p.full = decide (p.count = n) := by
  rw [full, count]
  by_cases h : p.enq = p.deq
  · cases p.maybeFull <;> simp [h, (NeZero.ne n).symm]
  · simp [h, (p.enq - p.deq).isLt.ne]

/-- The pointers and the bit determine how many places are in use. -/
theorem count_eq_of {c : ℕ} (hle : c ≤ n) (henq : p.enq = ringPlace p.deq c)
    (hfull : p.enq = p.deq → (p.maybeFull = true ↔ c ≠ 0)) : p.count = c := by
  rw [count]
  split
  · rename_i h
    have hzero : c = 0 ∨ c = n := by
      rcases hle.lt_or_eq with hlt | rfl
      · have hplace : ringPlace p.deq c = ringPlace p.deq 0 := by
          rw [← henq, h, ringPlace_zero]
        exact .inl (ringPlace_inj hlt (Nat.pos_of_neZero n) hplace)
      · exact .inr rfl
    rcases hzero with rfl | rfl
    · exact if_neg fun hm => (hfull h).mp hm rfl
    · exact if_pos ((hfull h).mpr (NeZero.ne c))
  · rename_i h
    have hlt : c < n := by
      refine lt_of_le_of_ne hle ?_
      rintro rfl
      exact h (henq.trans (ringPlace_self _))
    rw [henq, ringPlace, add_sub_cancel_left, Fin.val_ofNat, Nat.mod_eq_of_lt hlt]

variable {doEnq doDeq : Bool}

/-- **How many places are in use after a cycle.** -/
theorem count_next (henq : doEnq = true → p.full = false ∨ doDeq = true)
    (hdeq : doDeq = true → p.empty = false) :
    (p.next doEnq doDeq).count = p.count + doEnq.toNat - doDeq.toNat := by
  rw [full_eq, decide_eq_false_iff_not] at henq
  rw [empty_eq, decide_eq_false_iff_not] at hdeq
  have hle := p.count_le
  have hplace := p.enq_eq
  have hpos := Nat.pos_of_neZero n
  cases doEnq <;> cases doDeq
  · rfl
  · -- one place is emptied
    obtain ⟨c, hc⟩ := Nat.exists_eq_succ_of_ne_zero (hdeq rfl)
    rw [hc, ringPlace_succ] at hplace
    refine count_eq_of (by simp; omega) ?_ ?_
    · rw [hc]
      exact hplace
    · intro heq
      have heq' : ringPlace (p.deq + 1) c = ringPlace (p.deq + 1) 0 := by
        rw [← hplace, ringPlace_zero]
        exact heq
      have hzero := ringPlace_inj (by omega) hpos heq'
      simp [next, hc, hzero]
  · -- one place is filled
    have hlt : p.count ≠ n := (henq rfl).resolve_right Bool.false_ne_true
    refine count_eq_of (by simp; omega) ?_ ?_
    · show p.enq + 1 = ringPlace p.deq (p.count + 1)
      rw [hplace, ringPlace, ringPlace, add_assoc]
      congr 1
      ext
      simp [Fin.val_add]
    · intro _
      simp [next]
  · -- one place is filled and one is emptied
    refine count_eq_of (by simp; omega) ?_ ?_
    · show p.enq + 1 = ringPlace (p.deq + 1) (p.count + 1 - 1)
      rw [Nat.add_sub_cancel, hplace, ringPlace, ringPlace, add_right_comm]
    · intro heq
      have hmatch : p.enq = p.deq := add_right_cancel heq
      have hcount := hdeq rfl
      show p.maybeFull = true ↔ p.count ≠ 0
      refine iff_of_true ?_ hcount
      by_contra hno
      exact hcount (by rw [count, if_pos hmatch, if_neg hno])

/-- What a buffer with these pointers holds. -/
def held (p : RingPtrs n) (ram : Fin n → α) : List α := ringSlice ram p.deq p.count

theorem length_held : (p.held ram).length = p.count := length_ringSlice ..

theorem held_eq_nil (h : p.empty = true) : p.held ram = [] := by
  rw [empty_eq, decide_eq_true_eq] at h
  rw [held, h]
  rfl

theorem held_eq_cons (ram : Fin n → α) (h : p.empty = false) :
    ∃ l, p.held ram = ram p.deq :: l := by
  rw [empty_eq, decide_eq_false_iff_not] at h
  obtain ⟨c, hc⟩ := Nat.exists_eq_succ_of_ne_zero h
  exact ⟨_, by rw [held, hc]; rfl⟩

/-- **A circular buffer is a queue.** -/
theorem fifoStep (ram : Fin n → α) (x : α) (henq : doEnq = true → p.full = false ∨ doDeq = true)
    (hdeq : doDeq = true → p.empty = false) :
    FifoStep (p.held ram) (if doEnq then [x] else []) (if doDeq then [ram p.deq] else [])
      ((p.next doEnq doDeq).held (if doEnq then Function.update ram p.enq x else ram)) := by
  rw [FifoStep, held, held, count_next henq hdeq]
  rw [full_eq, decide_eq_false_iff_not] at henq
  rw [empty_eq, decide_eq_false_iff_not] at hdeq
  have hle := p.count_le
  have hplace := p.enq_eq
  cases doDeq with
  | false =>
    cases doEnq with
    | false => exact List.append_nil _
    | true =>
      have hlt : p.count ≠ n := (henq rfl).resolve_right Bool.false_ne_true
      have hkeep : ringSlice (Function.update ram p.enq x) p.deq p.count =
          ringSlice ram p.deq p.count := by
        refine ringSlice_update fun j hj h => ?_
        rw [hplace] at h
        exact hj.ne (ringPlace_inj (by omega) (by omega) h)
      show _ ++ [x] = ringSlice (Function.update ram p.enq x) p.deq (p.count + 1)
      rw [ringSlice_concat, hkeep, ← hplace, Function.update_self]
  | true =>
    obtain ⟨c, hc⟩ := Nat.exists_eq_succ_of_ne_zero (hdeq rfl)
    rw [hc, ringPlace_succ] at hplace
    cases doEnq with
    | false =>
      rw [hc]
      exact List.append_nil _
    | true =>
      have hkeep : ringSlice (Function.update ram p.enq x) (p.deq + 1) c =
          ringSlice ram (p.deq + 1) c := by
        refine ringSlice_update fun j hj h => ?_
        rw [hplace] at h
        exact hj.ne (ringPlace_inj (by omega) (by omega) h)
      have hnew : ringSlice (Function.update ram p.enq x) (p.deq + 1) (c + 1) =
          ringSlice ram (p.deq + 1) c ++ [x] := by
        rw [ringSlice_concat, hkeep, ← hplace, Function.update_self]
      show _ ++ [x] = [ram p.deq] ++
        ringSlice (Function.update ram p.enq x) (p.deq + 1) (p.count + 1 - 1)
      rw [hc, Nat.add_sub_cancel, Nat.succ_eq_add_one, hnew]
      rfl

end RingPtrs

end RiscvSoc
