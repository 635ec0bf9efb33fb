import RiscvSoc.Lib.Bits
import RiscvSoc.Lib.Encoder
import RiscvSoc.Lib.Rounding

/-!
# Choosing a way at random

`Random` from `rocket/src/main/scala/util.scala`. For a power of two the low bits of the random
source are the choice. Any other number of choices partitions the range of eight times as many
values, and the first slice whose upper end lies above the value is chosen. The ends are computed on
doubles as `i/slices` of the range, so that of the first slice, the one with `i = 0`, is zero, and
no value lies below it; and a value above the last end is in no slice. With a single choice
`log2Up(1)` is one, and the bit that is taken may be set.

The generator's `Int` arithmetic has no overflow for sizes it can build a circuit for.
-/

namespace RiscvSoc

open Bits

namespace Random

/-- The format of a `Double`. -/
def double : FloatFormat := ⟨52, -1022, 1023⟩

/-- `round`, of what is not negative. -/
def round (x : ℚ) : ℕ := if (⌊x⌋₊ : ℚ) = x then ⌊x⌋₊ else (⌊x⌋₊ + 1) / 2 * 2

/-- The end of slice `i` for a value of `w` bits. -/
def threshold (w slices i : ℕ) : ℕ :=
  round (double.roundMag .nearestEven false (((i <<< w : ℕ) : ℚ) / slices))

/-- `partition`. -/
def partition (value w slices : ℕ) : Fin slices → Bool := fun i =>
  decide (value < threshold w slices i)

/-- `apply`, for a power of two. -/
def applyPow2 (mod random : ℕ) : ℕ := bits random (log2Up mod - 1) 0

/-- The slices of what the source gives. -/
def slices (mod random : ℕ) : Fin mod → Bool :=
  partition (applyPow2 (1 <<< log2Up (mod * 8)) random) (log2Up (mod * 8)) mod

/-- `apply`. `PriorityEncoder` answers with the last line if none is up. -/
def apply (mod random : ℕ) : ℕ :=
  if isPow2 mod then applyPow2 mod random
  else ((priorityEncoder (slices mod random)).map Fin.val).getD (mod - 1)

/-- `oneHot`, the lines that are up. -/
def oneHot (mod random : ℕ) : ℕ → Bool :=
  if isPow2 mod then fun k => decide (k = applyPow2 mod random)
  else fun k => decide (k ∈ (priorityEncoder (slices mod random)).map Fin.val)

/-- The choice is in range, one line is up and it is that of the choice, and everything is chosen by
some value of the source. -/
structure WellFormed (mod : ℕ) : Prop where
  lt : ∀ random, apply mod random < mod
  one : ∀ random, ∃! k, k < mod ∧ oneHot mod random k = true
  same : ∀ random, oneHot mod random (apply mod random) = true
  every : ∀ k < mod, ∃ random, apply mod random = k

theorem threshold_zero (w n : ℕ) : threshold w n 0 = 0 := by
  have hzero : double.roundMag .nearestEven false 0 = 0 := by
    rw [FloatFormat.roundMag, zero_div, RoundingMode.roundNat_zero, Nat.cast_zero, zero_mul]
  rw [threshold, Nat.zero_shiftLeft, Nat.cast_zero, zero_div, hzero, round, Nat.floor_zero,
    if_pos Nat.cast_zero]

theorem apply_ne_zero {mod : ℕ} (hpow : isPow2 mod = false) (hmod : 1 < mod) (random : ℕ) :
    apply mod random ≠ 0 := by
  rw [apply, hpow, if_neg (by simp)]
  cases hslice : priorityEncoder (slices mod random) with
  | none =>
    rw [Option.map_none, Option.getD_none]
    omega
  | some i =>
    have hup : slices mod random i = true := priorityEncoder_some hslice
    rw [slices, partition, decide_eq_true_eq] at hup
    rw [Option.map_some, Option.getD_some]
    intro hzero
    rw [hzero, threshold_zero] at hup
    exact Nat.not_lt_zero _ hup

theorem applyPow2_eq {mod : ℕ} (hpow : isPow2 mod = true) (hne : mod ≠ 1) (random : ℕ) :
    applyPow2 mod random = random % mod := by
  have htwo := two_pow_log2Up_of_isPow2 hpow hne
  have hpos : 0 < log2Up mod := by
    rw [Nat.pos_iff_ne_zero]
    intro hzero
    rw [hzero, pow_zero] at htwo
    exact hne htwo.symm
  rw [applyPow2, bits_low hpos, htwo]

theorem wellFormed_of_isPow2 {mod : ℕ} (hpow : isPow2 mod = true) (hne : mod ≠ 1) :
    WellFormed mod := by
  have hpos : 0 < mod := by
    obtain ⟨k, rfl⟩ := eq_two_pow_of_isPow2 hpow
    exact Nat.two_pow_pos k
  have happly (random : ℕ) : apply mod random = random % mod :=
    (if_pos hpow).trans (applyPow2_eq hpow hne random)
  have honeHot (random k : ℕ) : oneHot mod random k = decide (k = random % mod) := by
    rw [oneHot, if_pos hpow, applyPow2_eq hpow hne]
  refine ⟨?_, ?_, ?_, ?_⟩
  · intro random
    rw [happly]
    exact Nat.mod_lt _ hpos
  · intro random
    refine ⟨random % mod, ⟨Nat.mod_lt _ hpos, ?_⟩, ?_⟩
    · rw [honeHot, decide_eq_true rfl]
    · rintro k ⟨-, hk⟩
      rwa [honeHot, decide_eq_true_eq] at hk
  · intro random
    rw [happly, honeHot, decide_eq_true rfl]
  · intro k hk
    exact ⟨k, (happly k).trans (Nat.mod_eq_of_lt hk)⟩

/-- **The choice is well formed for the powers of two from two on**, and for no other size. -/
theorem wellFormed_iff (mod : ℕ) (hmod : 1 ≤ mod) :
    WellFormed mod ↔ isPow2 mod = true ∧ mod ≠ 1 := by
  refine ⟨fun h => ?_, fun h => wellFormed_of_isPow2 h.1 h.2⟩
  have hne : mod ≠ 1 := by
    rintro rfl
    exact absurd (h.lt 1) (by decide)
  refine ⟨?_, hne⟩
  by_contra hpow
  obtain ⟨random, hrandom⟩ := h.every 0 hmod
  exact apply_ne_zero (Bool.not_eq_true _ ▸ hpow) (by omega) random hrandom

theorem wellFormed_iff_four : WellFormed 4 ↔ isPow2 4 = true ∧ 4 ≠ 1 :=
  wellFormed_iff 4 (by decide)

/-- Of three ways the first is never chosen. -/
theorem not_wellFormed_three : ¬WellFormed 3 := by
  intro h
  obtain ⟨random, hrandom⟩ := h.every 0 (by decide)
  exact apply_ne_zero rfl (by decide) random hrandom

end Random

end RiscvSoc
