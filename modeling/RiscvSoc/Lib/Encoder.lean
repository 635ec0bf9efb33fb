import Mathlib.Algebra.GroupWithZero.Nat
import Mathlib.Data.Fin.Basic
import Mathlib.Data.List.FinRange

/-!
# Choosing one of several lines

The encoders a circuit picks a line with. A priority encoder of no line at all has no answer
here; a circuit that looks at it anyway has to say so itself.
-/

namespace RiscvSoc

variable {n : ℕ}

/-- One line has a first one. -/
instance instNeZeroOne : NeZero 1 := ⟨Nat.one_ne_zero⟩

/-- And so do two. -/
instance instNeZeroTwo : NeZero 2 := ⟨Nat.two_pos.ne'⟩

/-- And four. -/
instance instNeZeroFour : NeZero 4 := ⟨Nat.succ_ne_zero 3⟩

/-- And sixteen. -/
instance instNeZeroSixteen : NeZero 16 := ⟨Nat.succ_ne_zero 15⟩

/-- The lowest line that is up. -/
def priorityEncoder (f : Fin n → Bool) : Option (Fin n) := (List.finRange n).find? f

variable {f : Fin n → Bool} {i : Fin n} {l : List (Fin n)} {sel : Fin n → Bool}

theorem priorityEncoder_some (h : priorityEncoder f = some i) :
    f i = true := List.find?_some h

theorem priorityEncoder_eq_none :
    priorityEncoder f = none ↔ ∀ i, f i = false := by
  simp [priorityEncoder]

theorem priorityEncoder_eq_some :
    priorityEncoder f = some i ↔ f i = true ∧ ∀ j < i, f j = false := by
  rw [priorityEncoder, List.find?_eq_some_iff_getElem]
  refine and_congr_right fun _ => ⟨?_, fun h => ⟨i, by simp, by simp, fun j hj => ?_⟩⟩
  · rintro ⟨k, hk, hki, h⟩ j hj
    have hlt : (j : ℕ) < k := by simpa [← hki, Fin.lt_def] using hj
    simpa using h j hlt
  · simpa using h ⟨j, hj.trans i.isLt⟩ hj

/-- The highest line that is up. -/
def lastEncoder (f : Fin n → Bool) : Option (Fin n) := (List.finRange n).reverse.find? f

theorem lastEncoder_eq_none : lastEncoder f = none ↔ ∀ i, f i = false := by
  simp [lastEncoder]

theorem lastEncoder_eq_some :
    lastEncoder f = some i ↔ f i = true ∧ ∀ j, i < j → f j = false := by
  rw [lastEncoder, List.find?_eq_some_iff_getElem]
  refine and_congr_right fun _ => ⟨?_, fun h => ⟨n - 1 - i, by simp; omega, ?_, fun j hj => ?_⟩⟩
  · rintro ⟨k, hk, hki, h⟩ j hj
    simp only [List.length_reverse, List.length_finRange] at hk
    have hval : (i : ℕ) = n - 1 - k := by simp [← hki]
    have hup := h (n - 1 - j) (by omega)
    have hj' : n - 1 - (n - 1 - (j : ℕ)) = j := by omega
    simpa [hj'] using hup
  · ext
    simp
    omega
  · have hup := h ⟨n - 1 - j, by omega⟩ (by simp only [Fin.lt_def]; omega)
    simpa using hup

/-- Some line is up. -/
def orR (f : Fin n → Bool) : Bool := (priorityEncoder f).isSome

theorem orR_eq_true : orR f = true ↔ ∃ i, f i = true := by
  rw [orR, Option.isSome_iff_ne_none, Ne, priorityEncoder_eq_none]
  simp

/-- `OHToUInt`: the numbers of the lines that are up, or-ed together. -/
def ohToUInt [NeZero n] (f : Fin n → Bool) : Fin n :=
  (List.finRange n).foldl (fun a i => if f i then a ||| i else a) 0

/-! ### Multiplexers -/

/-- `Mux1H`. A multiplexer with one input does not look at its selector. -/
def mux1H (sel : Fin n → Bool) (f : Fin n → ℕ) : ℕ :=
  (List.finRange n).foldl (fun x i => if sel i || decide (n = 1) then x ||| f i else x) 0

/-- The number of the line that is up. -/
def ohIndex (f : Fin n → Bool) : ℕ :=
  (List.finRange n).foldl (fun x i => if f i then x ||| i else x) 0

theorem foldl_or_of_none {β : Type} [OrOp β] {f : Fin n → β} (h : ∀ i ∈ l, sel i = false) (x : β) :
    l.foldl (fun x i => if sel i then x ||| f i else x) x = x := by
  induction l generalizing x with
  | nil => rfl
  | cons a l ih =>
    rw [List.foldl_cons, h a List.mem_cons_self]
    exact ih (fun i hi => h i (List.mem_cons_of_mem a hi)) x

theorem foldl_or_of_unique {β : Type} [OrOp β] {f : Fin n → β} (hmem : i ∈ l) (hnodup : l.Nodup)
    (hsel : ∀ j, sel j = true ↔ j = i) (x : β) :
    l.foldl (fun x i => if sel i then x ||| f i else x) x = x ||| f i := by
  induction l generalizing x with
  | nil => cases hmem
  | cons a l ih =>
    rw [List.foldl_cons]
    obtain ⟨hnot, hnodup⟩ := List.nodup_cons.mp hnodup
    by_cases ha : a = i
    · subst ha
      rw [(hsel a).mpr rfl]
      refine foldl_or_of_none ?_ _
      intro j hj
      rw [← Bool.not_eq_true, hsel j]
      rintro rfl
      exact hnot hj
    · have hfalse : sel a = false := by
        rw [← Bool.not_eq_true, hsel a]
        exact ha
      rw [hfalse]
      exact ih ((List.mem_cons.mp hmem).resolve_left (Ne.symm ha)) hnodup x

theorem mux1H_eq {f : Fin n → ℕ} (hsel : ∀ j, sel j = true ↔ j = i) : mux1H sel f = f i := by
  rw [mux1H, foldl_or_of_unique (List.mem_finRange i) (List.nodup_finRange n), Nat.zero_or]
  intro j
  rw [Bool.or_eq_true, hsel j, decide_eq_true_eq]
  constructor
  · rintro (rfl | rfl)
    · rfl
    · exact Subsingleton.elim j i
  · exact .inl

theorem ohToUInt_eq [NeZero n] (hsel : ∀ j, sel j = true ↔ j = i) : ohToUInt sel = i := by
  refine (foldl_or_of_unique (f := fun j => j) (List.mem_finRange i) (List.nodup_finRange n)
    hsel 0).trans (Fin.ext ?_)
  rw [Fin.or_val]
  simp [Nat.mod_eq_of_lt i.isLt]

theorem orR_and_eq {sel f : Fin n → Bool} (hsel : ∀ j, sel j = true ↔ j = i) :
    orR (fun j => f j && sel j) = f i := by
  rw [Bool.eq_iff_iff, orR_eq_true]
  constructor
  · rintro ⟨j, hj⟩
    obtain ⟨hf, hs⟩ := Bool.and_eq_true_iff.mp hj
    rwa [(hsel j).mp hs] at hf
  · intro hf
    exact ⟨i, Bool.and_eq_true_iff.mpr ⟨hf, (hsel i).mpr rfl⟩⟩

theorem ohIndex_eq (hsel : ∀ j, sel j = true ↔ j = i) :
    ohIndex sel = i := by
  rw [ohIndex, foldl_or_of_unique (List.mem_finRange i) (List.nodup_finRange n) hsel, Nat.zero_or]

theorem filterMap_of_unique {α β : Type} {f : α → Option β} {a : α} {l : List α} (hl : l.Nodup)
    (ha : a ∈ l) (h : ∀ b ∈ l, b ≠ a → f b = none) : l.filterMap f = (f a).toList := by
  induction l with
  | nil => cases ha
  | cons b l ih =>
    have hnd := List.nodup_cons.1 hl
    by_cases hb : b = a
    · subst hb
      have hrest : l.filterMap f = [] := List.filterMap_eq_nil_iff.2 fun c hc =>
        h c (List.mem_cons_of_mem b hc) fun heq => hnd.1 (heq ▸ hc)
      cases hf : f b <;> simp [hf, hrest]
    · have ha' : a ∈ l := (List.mem_cons.1 ha).resolve_left fun h => hb h.symm
      rw [List.filterMap_cons_none (h b List.mem_cons_self hb)]
      exact ih hnd.2 ha' fun c hc => h c (List.mem_cons_of_mem b hc)

theorem filterMap_finRange_of_unique {n : ℕ} {β : Type} {f : Fin n → Option β} {j : Fin n}
    (h : ∀ k, k ≠ j → f k = none) : (List.finRange n).filterMap f = (f j).toList :=
  filterMap_of_unique (List.nodup_finRange n) (List.mem_finRange j) fun k _ => h k

end RiscvSoc
