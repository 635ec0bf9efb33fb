import Mathlib.Data.Nat.Notation
import Mathlib.Order.Defs.LinearOrder

/-!
# A window over numbered items

Items are completed in any order and counted in the order of their numbers. For those that are not
counted yet there is one bit each: bit `j` of the window says whether item `base + j` is complete,
where `base` is the first item that is not counted. Completing an item or-es a one into the window,
at its distance from `base`, and counting items shifts the window. A window of `w` bits is enough as
long as no item from `base + w` on is complete.

Nothing here knows about any particular system.
-/

namespace RiscvSoc

namespace SlidingWindow

variable {w base : ℕ} {st upd : BitVec w} {P Q : ℕ → Prop}

/-- Bit `j` says whether item `base + j` is complete. -/
def Tracks (st : BitVec w) (base : ℕ) (P : ℕ → Prop) : Prop :=
  ∀ j < w, st.getLsbD j = true ↔ P (base + j)

theorem Tracks.congr (h : Tracks st base P) (hPQ : ∀ k, P k ↔ Q k) : Tracks st base Q :=
  fun j hj => (h j hj).trans (hPQ _)

theorem tracks_zero (h : ∀ k ≥ base, ¬ P k) : Tracks (0 : BitVec w) base P := by
  intro j _
  rw [BitVec.ofNat_eq_ofNat, BitVec.getLsbD_zero]
  exact iff_of_false Bool.false_ne_true (h _ (Nat.le_add_right ..))

theorem Tracks.eq_zero (h : Tracks st base P) (hnone : ∀ k ≥ base, ¬ P k) : st = 0 := by
  refine BitVec.eq_of_getLsbD_eq fun j hj => ?_
  rw [BitVec.ofNat_eq_ofNat, BitVec.getLsbD_zero, ← Bool.not_eq_true, h j hj]
  exact hnone _ (Nat.le_add_right ..)

theorem tracks_one {k : ℕ} (h : base ≤ k) :
    Tracks ((1 : BitVec w) <<< (k - base)) base (· = k) := by
  intro j hj
  rw [BitVec.getLsbD_shiftLeft, BitVec.ofNat_eq_ofNat, BitVec.getLsbD_one]
  simp only [hj, decide_true, Bool.true_and, Bool.and_eq_true, Bool.not_eq_true',
    decide_eq_false_iff_not, decide_eq_true_eq]
  omega

theorem Tracks.or (h : Tracks st base P) (h' : Tracks upd base Q) :
    Tracks (st ||| upd) base fun k => P k ∨ Q k := by
  intro j hj
  rw [BitVec.getLsbD_or, Bool.or_eq_true, h j hj, h' j hj]

/-- **Items that are completed together.** -/
theorem Tracks.foldl_or {ι : Type} {l : List ι} {upd : ι → BitVec w} {Q : ι → ℕ → Prop}
    (h : Tracks st base P) (hupd : ∀ i ∈ l, Tracks (upd i) base (Q i)) :
    Tracks (l.foldl (fun st i => st ||| upd i) st) base fun k => P k ∨ ∃ i ∈ l, Q i k := by
  induction l generalizing st P with
  | nil => exact h.congr fun k => by simp
  | cons i l ih =>
    have hrest := ih (h.or (hupd i List.mem_cons_self)) fun i' hi' =>
      hupd i' (List.mem_cons_of_mem i hi')
    refine hrest.congr fun k => ?_
    simp only [List.mem_cons, exists_eq_or_imp, or_assoc]

/-- **Items that are counted**, if the window was wide enough. -/
theorem Tracks.shift (h : Tracks st base P) (hend : ∀ k ≥ base + w, ¬ P k) (c : ℕ) :
    Tracks (st >>> c) (base + c) P := by
  intro j _
  rw [BitVec.getLsbD_ushiftRight, Nat.add_assoc]
  rcases Nat.lt_or_ge (c + j) w with hlt | hge
  · exact h _ hlt
  · rw [BitVec.getLsbD_of_ge _ _ hge]
    exact iff_of_false Bool.false_ne_true (hend _ (Nat.add_le_add_left hge base))

/-! ### Leading ones -/

/-- The number of ones from place 0 on, at most `n`, and whether the next place is one more. -/
def leadingOnes (f : ℕ → Bool) : ℕ → ℕ × Bool
  | 0 => (0, f 0)
  | n + 1 =>
    (if (leadingOnes f n).2 then n + 1 else (leadingOnes f n).1,
      (leadingOnes f n).2 && f (n + 1))

variable {f : ℕ → Bool} {n k : ℕ}

theorem leadingOnes_snd : (leadingOnes f n).2 = true ↔ ∀ j ≤ n, f j = true := by
  induction n with
  | zero => simp [leadingOnes]
  | succ n ih =>
    rw [leadingOnes, Bool.and_eq_true, ih]
    constructor
    · rintro ⟨hall, hlast⟩ j hj
      rcases Nat.lt_or_eq_of_le hj with hlt | rfl
      · exact hall j (Nat.le_of_lt_succ hlt)
      · exact hlast
    · exact fun hall => ⟨fun j hj => hall j (Nat.le_succ_of_le hj), hall _ (Nat.le_refl _)⟩

/-- **The limited count.** -/
theorem le_leadingOnes_iff : k ≤ (leadingOnes f n).1 ↔ k ≤ n ∧ ∀ j < k, f j = true := by
  induction n with
  | zero =>
    constructor
    · intro h
      have hzero : k = 0 := Nat.le_zero.mp h
      exact ⟨h, fun j hj => absurd hj (by omega)⟩
    · exact fun h => h.1
  | succ n ih =>
    rw [leadingOnes]
    cases hsel : (leadingOnes f n).2 with
    | true =>
      rw [if_pos rfl]
      rw [leadingOnes_snd] at hsel
      exact ⟨fun h => ⟨h, fun j hj => hsel j (by omega)⟩, fun h => h.1⟩
    | false =>
      rw [if_neg (by simp), ih]
      refine ⟨fun h => ⟨Nat.le_succ_of_le h.1, h.2⟩, fun h => ⟨?_, h.2⟩⟩
      -- With `n + 1` ones the place after the first `n` would have been one.
      by_contra hgt
      have hall : (leadingOnes f n).2 = true := leadingOnes_snd.mpr fun j hj => h.2 j (by omega)
      rw [hsel] at hall
      cases hall

end SlidingWindow

end RiscvSoc
