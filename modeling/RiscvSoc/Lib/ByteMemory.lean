import Mathlib.Data.BitVec
import Mathlib.Logic.Function.Basic

/-!
# A byte memory behind words

Little-endian reads and writes of a few bytes at a time. The memory is made of lines, and an access
stays within one; what a line is called is left open. Writes carry their data in a register, of
which they store the low bytes.
-/

namespace RiscvSoc

/-- The bytes of every line. -/
abbrev ByteMem (ι : Type) : Type := ι → ℕ → BitVec 8

/-- `size` bytes of a line, from `offset` on. -/
structure Access (ι : Type) where
  line : ι
  offset : ℕ
  size : ℕ

/-- A write of the low bytes of a register. -/
structure Write (ι : Type) extends Access ι where
  data : BitVec 64

variable {ι : Type}

namespace Access

/-- The access touches byte `b` of its line. -/
def Has (a : Access ι) (b : ℕ) : Prop := a.offset ≤ b ∧ b < a.offset + a.size

instance (a : Access ι) (b : ℕ) : Decidable (a.Has b) := inferInstanceAs (Decidable (_ ∧ _))

/-- The accesses share a byte. -/
def Overlaps (a b : Access ι) : Prop := a.line = b.line ∧ ∃ x, a.Has x ∧ b.Has x

end Access

/-- The lowest byte first. -/
def littleEndian (bytes : ℕ → BitVec 8) : (n : ℕ) → BitVec (8 * n)
  | 0 => 0#0
  | n + 1 => (bytes n ++ littleEndian bytes n).cast (by omega)

theorem getLsbD_littleEndian (bytes : ℕ → BitVec 8) (n : ℕ) {i : ℕ} (hi : i < 8 * n) :
    (littleEndian bytes n).getLsbD i = (bytes (i / 8)).getLsbD (i % 8) := by
  induction n with
  | zero => exact absurd hi (Nat.not_lt_zero i)
  | succ n ih =>
    rw [littleEndian, BitVec.getLsbD_cast, BitVec.getLsbD_append]
    split
    · exact ih ‹_›
    · rw [show i / 8 = n by omega, show i % 8 = i - 8 * n by omega]

namespace ByteMem

def read (m : ByteMem ι) (a : Access ι) : BitVec (8 * a.size) :=
  littleEndian (fun i => m a.line (a.offset + i)) a.size

variable {a : Access ι} (m : ByteMem ι)

theorem read_congr {m m' : ByteMem ι}
    (h : ∀ b, a.Has b → m a.line b = m' a.line b) : read m a = read m' a := by
  refine BitVec.eq_of_getLsbD_eq fun i hi => ?_
  rw [read, read, getLsbD_littleEndian _ _ hi, getLsbD_littleEndian _ _ hi, h]
  exact ⟨Nat.le_add_right .., by omega⟩

/-- The first eight bytes of a line. -/
def word (m : ByteMem ι) (l : ι) : BitVec 64 := littleEndian (m l) 8

theorem getLsbD_word (l : ι) {i : ℕ} (hi : i < 64) :
    (m.word l).getLsbD i = (m l (i / 8)).getLsbD (i % 8) := getLsbD_littleEndian _ 8 hi

/-- An access within the first eight bytes reads part of their word. -/
theorem extract_word (h : a.offset + a.size ≤ 8) :
    (m.word a.line).extractLsb' (8 * a.offset) (8 * a.size) = m.read a := by
  refine BitVec.eq_of_getLsbD_eq fun i hi => ?_
  rw [read, getLsbD_littleEndian _ _ hi, BitVec.getLsbD_extractLsb', decide_eq_true hi,
    Bool.true_and, getLsbD_word _ _ (by omega),
    show (8 * a.offset + i) / 8 = a.offset + i / 8 by omega,
    show (8 * a.offset + i) % 8 = i % 8 by omega]

variable [DecidableEq ι]

def perform (m : ByteMem ι) (w : Write ι) : ByteMem ι := fun l b =>
  if l = w.line ∧ w.Has b then w.data.extractLsb' (8 * (b - w.offset)) 8 else m l b

/-- Writes one after the other. -/
def performAll (m : ByteMem ι) (ws : List (Write ι)) : ByteMem ι := ws.foldl perform m

variable {m : ByteMem ι} {a : Access ι} {w : Write ι}

theorem word_perform_of_ne {l : ι} (h : l ≠ w.line) : (m.perform w).word l = m.word l := by
  refine BitVec.eq_of_getLsbD_eq fun i hi => ?_
  rw [getLsbD_word _ _ hi, getLsbD_word _ _ hi, perform, if_neg fun hw => h hw.1]

theorem getLsbD_word_perform {i : ℕ} (hi : i < 64) : ((m.perform w).word w.line).getLsbD i =
    if w.Has (i / 8) then w.data.getLsbD (i - 8 * w.offset) else (m.word w.line).getLsbD i := by
  rw [getLsbD_word _ _ hi, perform]
  by_cases hw : w.Has (i / 8)
  · have hlow : 8 * (i / 8 - w.offset) + i % 8 = i - 8 * w.offset := by
      have := hw.1
      omega
    rw [if_pos ⟨rfl, hw⟩, if_pos hw, BitVec.getLsbD_extractLsb', hlow,
      decide_eq_true (Nat.mod_lt i (by decide)), Bool.true_and]
  · rw [if_neg fun h => hw h.2, if_neg hw, getLsbD_word _ _ hi]

theorem read_perform_of_not_overlaps (h : ¬w.Overlaps a) : (m.perform w).read a = m.read a := by
  refine read_congr fun b hb => if_neg ?_
  rintro ⟨hl, hw⟩
  exact h ⟨hl.symm, b, hw, hb⟩

theorem read_performAll_of_not_overlaps {ws : List (Write ι)} (h : ∀ w ∈ ws, ¬w.Overlaps a) :
    (m.performAll ws).read a = m.read a := by
  induction ws generalizing m with
  | nil => rfl
  | cons w ws ih =>
    rw [performAll, List.foldl_cons]
    refine (ih fun u hu => h u (List.mem_cons_of_mem _ hu)).trans ?_
    exact read_perform_of_not_overlaps (h w List.mem_cons_self)

theorem read_perform_self (h : w.toAccess = a) :
    (m.perform w).read a = w.data.setWidth (8 * a.size) := by
  subst h
  refine BitVec.eq_of_getLsbD_eq fun i hi => ?_
  have hbyte : w.Has (w.offset + i / 8) := ⟨Nat.le_add_right .., by omega⟩
  rw [read, getLsbD_littleEndian _ _ hi, perform, if_pos ⟨rfl, hbyte⟩]
  rw [BitVec.getLsbD_extractLsb', BitVec.getLsbD_setWidth, decide_eq_true hi,
    decide_eq_true (Nat.mod_lt i (by decide))]
  rw [Bool.true_and, Bool.true_and, Nat.add_sub_cancel_left, Nat.div_add_mod]

/-- **The last write to the bytes of a read** is what the read returns. -/
theorem read_performAll {ws₁ ws₂ : List (Write ι)} (hw : w.toAccess = a)
    (h : ∀ u ∈ ws₂, ¬u.Overlaps a) :
    (m.performAll (ws₁ ++ w :: ws₂)).read a = w.data.setWidth (8 * a.size) := by
  rw [performAll, List.foldl_append, List.foldl_cons]
  exact (read_performAll_of_not_overlaps h).trans (read_perform_self hw)

end ByteMem

end RiscvSoc
