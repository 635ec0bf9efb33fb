import RiscvSoc.Lib.Bits

/-!
# Serial division and multiplication in one shared register

The two classical one-register algorithms, as closed forms for the register after `k` steps and
one lemma saying that a step takes the `k`-th form to the next.

**Restoring division** keeps the partial remainder above the not yet consumed dividend bits and
shifts quotient bits in from the right. Each step looks at `V = R / 2 ^ n`, subtracts the divisor
when it fits, and shifts; `n + 1` steps divide an `n`-bit dividend. The closed form covers the
zero divisor as well: every quotient bit is then one.

**Shift-and-add multiplication** keeps the partial product above the not yet consumed multiplier
bits and shifts right. The multiplicand is a signed integer, so the register is read as an
integer too.

**Running division** goes through the multiples `L * k` of a length and keeps the quotient by a
smaller `d` with additions only. It knows the distance from `L * k` up to the next multiple of `d`:
when the remainder of `L` reaches over it, the quotient goes up by one more than `L / d`.
-/

namespace RiscvSoc

namespace SerialArith

/-! ### Restoring division -/

/-- The quotient of `x` by `d`, `k` steps into a division: all ones when `d = 0`. -/
def quot (d k x : ℕ) : ℕ := if d = 0 then 2 ^ k - 1 else x / d

/-- One step on the shared register: subtract if it fits, shift, insert the quotient bit. -/
def divShift (n d R : ℕ) : ℕ :=
  ((if R / 2 ^ n < d then R / 2 ^ n else R / 2 ^ n - d) * 2 ^ n + R % 2 ^ n) * 2
    + (if R / 2 ^ n < d then 0 else 1)

/-- The partial remainder of the top `k` dividend bits, before it is compared. -/
def divHead (n N d k : ℕ) : ℕ := 2 * (N / 2 ^ (n - k) / 2 % d) + N / 2 ^ (n - k) % 2

/-- The shared register after `k` steps. -/
def divReg (n N d k : ℕ) : ℕ :=
  divHead n N d k * 2 ^ n + (N % 2 ^ (n - k) * 2 ^ k + quot d k (N / 2 ^ (n - k) / 2))

variable {n N d k : ℕ}

/-- The register's low half after `k` steps stays below `2 ^ n`. -/
theorem divReg_low_lt (hN : N < 2 ^ n) (hk : k ≤ n) :
    N % 2 ^ (n - k) * 2 ^ k + quot d k (N / 2 ^ (n - k) / 2) < 2 ^ n := by
  have hpow : 2 ^ n = 2 ^ (n - k) * 2 ^ k := by rw [← pow_add, Nat.sub_add_cancel hk]
  have hlow : N % 2 ^ (n - k) + 1 ≤ 2 ^ (n - k) := Nat.mod_lt _ (Nat.two_pow_pos _)
  have hquot : quot d k (N / 2 ^ (n - k) / 2) < 2 ^ k := by
    rw [quot]
    split
    · exact Nat.sub_lt (Nat.two_pow_pos k) one_pos
    · have htop : N / 2 ^ (n - k) < 2 ^ k := Nat.div_lt_of_lt_mul (hpow ▸ hN)
      exact (Nat.div_le_self _ _).trans_lt ((Nat.div_le_self _ _).trans_lt htop)
  calc N % 2 ^ (n - k) * 2 ^ k + quot d k (N / 2 ^ (n - k) / 2)
      < N % 2 ^ (n - k) * 2 ^ k + 2 ^ k := by omega
    _ = (N % 2 ^ (n - k) + 1) * 2 ^ k := by ring
    _ ≤ 2 ^ (n - k) * 2 ^ k := Nat.mul_le_mul_right _ hlow
    _ = 2 ^ n := hpow.symm

theorem divReg_div (hN : N < 2 ^ n) (hk : k ≤ n) :
    divReg n N d k / 2 ^ n = divHead n N d k := by
  rw [divReg, Nat.add_comm, Nat.add_mul_div_right _ _ (Nat.two_pow_pos n),
    Nat.div_eq_of_lt (divReg_low_lt hN hk), Nat.zero_add]

theorem divReg_mod (hN : N < 2 ^ n) (hk : k ≤ n) :
    divReg n N d k % 2 ^ n = N % 2 ^ (n - k) * 2 ^ k + quot d k (N / 2 ^ (n - k) / 2) := by
  rw [divReg, Nat.add_comm, Nat.add_mul_mod_self_right, Nat.mod_eq_of_lt (divReg_low_lt hN hk)]

/-- Below twice a nonzero divisor; without one, the dividend bits read so far. -/
theorem divHead_lt (hd : 0 < d) : divHead n N d k < 2 * d := by
  have h := Nat.mod_lt (N / 2 ^ (n - k) / 2) hd
  rw [divHead]
  omega

theorem divHead_zero_divisor (n N k : ℕ) : divHead n N 0 k = N / 2 ^ (n - k) := by
  rw [divHead, Nat.mod_zero]
  omega

/-- The compare-and-subtract: the reduced head, and its quotient bit. -/
theorem head_reduce {d x v : ℕ} (hd : 0 < d) (hv : v = 2 * (x / 2 % d) + x % 2) :
    (if v < d then v else v - d) = x % d ∧
      x / d = 2 * (x / 2 / d) + (if v < d then 0 else 1) := by
  have hr := Nat.mod_lt (x / 2) hd
  have hx : x = d * (2 * (x / 2 / d)) + v := by
    have h := Nat.div_add_mod (x / 2) d
    calc x = 2 * (x / 2) + x % 2 := by omega
      _ = 2 * (d * (x / 2 / d) + x / 2 % d) + x % 2 := by rw [h]
      _ = d * (2 * (x / 2 / d)) + v := by rw [hv]; ring
  split
  · rename_i hlt
    constructor
    · conv_rhs => rw [hx, Nat.mul_add_mod, Nat.mod_eq_of_lt hlt]
    · conv_lhs => rw [hx, Nat.mul_add_div hd, Nat.div_eq_of_lt hlt]
  · rename_i hge
    have hlt : v - d < d := by omega
    have hx' : x = d * (2 * (x / 2 / d) + 1) + (v - d) := by
      rw [Nat.mul_add, Nat.mul_one]
      omega
    constructor
    · conv_rhs => rw [hx', Nat.mul_add_mod, Nat.mod_eq_of_lt hlt]
    · conv_lhs => rw [hx', Nat.mul_add_div hd, Nat.div_eq_of_lt hlt, Nat.add_zero]

/-- One step on the closed form, before the dividend bit that enters the head is split off. -/
theorem divShift_divReg_aux (hN : N < 2 ^ n) (hk : k ≤ n) :
    divShift n d (divReg n N d k) =
      N / 2 ^ (n - k) % d * 2 ^ (n + 1) + N % 2 ^ (n - k) * 2 ^ (k + 1)
        + quot d (k + 1) (N / 2 ^ (n - k)) := by
  rw [divShift, divReg_div hN hk, divReg_mod hN hk]
  rcases Nat.eq_zero_or_pos d with rfl | hd
  · have hpow := Nat.two_pow_pos k
    simp only [divHead_zero_divisor, Nat.not_lt_zero, if_false, Nat.sub_zero, quot, if_true,
      Nat.mod_zero, pow_succ]
    rw [Nat.add_mul, Nat.add_mul, Nat.mul_assoc, Nat.mul_assoc]
    omega
  · obtain ⟨hrem, hquot⟩ := @head_reduce d (N / 2 ^ (n - k)) (divHead n N d k) hd rfl
    simp only [quot, hd.ne', if_false]
    rw [hrem, hquot, pow_succ, pow_succ]
    ring

/-- **The division step.** -/
theorem divShift_divReg (hN : N < 2 ^ n) (hk : k < n) :
    divShift n d (divReg n N d k) = divReg n N d (k + 1) := by
  rw [divShift_divReg_aux hN hk.le, divReg, divHead]
  have hsub : n - k = (n - (k + 1)) + 1 := by omega
  have htop : N / 2 ^ (n - (k + 1)) / 2 = N / 2 ^ (n - k) := by
    rw [Nat.div_div_eq_div_mul, hsub, pow_succ]
  have hlow : N % 2 ^ (n - k)
      = N / 2 ^ (n - (k + 1)) % 2 * 2 ^ (n - (k + 1)) + N % 2 ^ (n - (k + 1)) := by
    rw [hsub, pow_succ, Nat.mod_mul]
    ring
  have hpow : 2 ^ n = 2 ^ (n - (k + 1)) * 2 ^ (k + 1) := by
    rw [← pow_add, Nat.sub_add_cancel hk]
  rw [htop, hlow, pow_succ 2 n, hpow]
  ring

/-- **The last step** leaves the remainder above the quotient. -/
theorem divShift_divReg_last {n N d : ℕ} (hN : N < 2 ^ n) :
    divShift n d (divReg n N d n) = N % d * 2 ^ (n + 1) + quot d (n + 1) N := by
  rw [divShift_divReg_aux hN le_rfl]
  simp [Nat.mod_one]

theorem divReg_zero {n N d : ℕ} (hN : N < 2 ^ n) : divReg n N d 0 = N := by
  simp [divReg, divHead, quot, Nat.div_eq_of_lt hN, Nat.mod_eq_of_lt hN]

/-- Skipping the first `k` steps is a shift, as long as the dividend bits they read, the last one
left out, stay below the divisor. -/
theorem divReg_jump (hk : k ≤ n) (h : N / 2 ^ (n - k) / 2 < d) :
    divReg n N d k = N * 2 ^ k := by
  have hd : d ≠ 0 := Nat.ne_of_gt (Nat.zero_lt_of_lt h)
  have hpow : 2 ^ n = 2 ^ (n - k) * 2 ^ k := by rw [← pow_add, Nat.sub_add_cancel hk]
  rw [divReg, divHead, quot, if_neg hd, Nat.mod_eq_of_lt h, Nat.div_eq_of_lt h,
    Nat.div_add_mod, Nat.add_zero, hpow, ← Nat.mul_assoc, ← Nat.add_mul,
    Nat.mul_comm _ (2 ^ (n - k)),
    Nat.div_add_mod]

/-! ### Shift-and-add multiplication -/

/-- The shared register, as an integer, once the `k` low bits of the multiplier `M` are used. -/
def mulAcc (n M : ℕ) (C : ℤ) (k : ℕ) : ℤ := C * (M % 2 ^ k : ℕ) * 2 ^ (n - k) + (M / 2 ^ k : ℕ)

theorem mulAcc_zero (n M : ℕ) (C : ℤ) : mulAcc n M C 0 = M := by
  simp [mulAcc, Nat.mod_one]

theorem mulAcc_self {n M : ℕ} (hM : M < 2 ^ n) (C : ℤ) : mulAcc n M C n = C * M := by
  simp [mulAcc, Nat.mod_eq_of_lt hM, Nat.div_eq_of_lt hM]

/-- Once the rest of the multiplier is zero the product is complete, up to a shift. -/
theorem mulAcc_of_lt {n M k : ℕ} (hM : M < 2 ^ k) (C : ℤ) :
    mulAcc n M C k = C * M * 2 ^ (n - k) := by
  simp [mulAcc, Nat.mod_eq_of_lt hM, Nat.div_eq_of_lt hM]

/-- The low bits of the register are the unused multiplier bits. -/
theorem mulAcc_emod {n M k m : ℕ} (C : ℤ) (hm : m ≤ n - k) :
    mulAcc n M C k % 2 ^ m = (M / 2 ^ k % 2 ^ m : ℕ) := by
  have hdvd : (2 : ℤ) ^ m ∣ C * (M % 2 ^ k : ℕ) * 2 ^ (n - k) :=
    Dvd.dvd.mul_left (pow_dvd_pow 2 hm) _
  rw [mulAcc, Int.add_emod, Int.emod_eq_zero_of_dvd hdvd, zero_add, Int.emod_emod]
  push_cast
  rfl

/-- **The multiplication step.** The next `u` multiplier bits select a multiple of `C`, which is
added to the upper half before the register shifts right by `u`. -/
theorem mulAcc_add {n M k u : ℕ} (C : ℤ) (hk : k + u ≤ n) :
    (mulAcc n M C k % 2 ^ u * C + mulAcc n M C k / 2 ^ n) * 2 ^ (n - u)
        + mulAcc n M C k % 2 ^ n / 2 ^ u
      = mulAcc n M C (k + u) := by
  set X := mulAcc n M C k with hX
  have hpos : (0 : ℤ) < 2 ^ u := by positivity
  have hn : (2 : ℤ) ^ n = 2 ^ (n - u) * 2 ^ u := by rw [← pow_add, Nat.sub_add_cancel (by omega)]
  have hnk : (2 : ℤ) ^ (n - k) = 2 ^ (n - (k + u)) * 2 ^ u := by
    rw [← pow_add, show n - (k + u) + u = n - k by omega]
  have hchunk : X % 2 ^ u = (M / 2 ^ k % 2 ^ u : ℕ) := mulAcc_emod C (by omega)
  have hsplit : X % 2 ^ n = 2 ^ u * (X % 2 ^ n / 2 ^ u) + X % 2 ^ u := by
    have h := Int.mul_ediv_add_emod (X % 2 ^ n) (2 ^ u)
    rw [Int.emod_emod_of_dvd X (pow_dvd_pow 2 (by omega : u ≤ n))] at h
    exact h.symm
  have hXn : X = 2 ^ n * (X / 2 ^ n) + X % 2 ^ n := (Int.mul_ediv_add_emod X (2 ^ n)).symm
  have hmod : M % 2 ^ (k + u) = M % 2 ^ k + 2 ^ k * (M / 2 ^ k % 2 ^ u) := by
    rw [pow_add, Nat.mod_mul]
  have hdiv : M / 2 ^ k = 2 ^ u * (M / 2 ^ (k + u)) + M / 2 ^ k % 2 ^ u := by
    rw [pow_add, ← Nat.div_div_eq_div_mul, Nat.div_add_mod]
  have hXval : X = C * (M % 2 ^ k : ℕ) * (2 ^ (n - (k + u)) * 2 ^ u)
      + (2 ^ u * (M / 2 ^ (k + u) : ℕ) + (M / 2 ^ k % 2 ^ u : ℕ)) := by
    rw [hX, mulAcc, hnk]
    congr 1
    exact_mod_cast hdiv
  refine mul_right_cancel₀ hpos.ne' ?_
  calc ((X % 2 ^ u * C + X / 2 ^ n) * 2 ^ (n - u) + X % 2 ^ n / 2 ^ u) * 2 ^ u
      = X % 2 ^ u * C * 2 ^ n + (2 ^ n * (X / 2 ^ n) + 2 ^ u * (X % 2 ^ n / 2 ^ u)) := by
        rw [hn]; ring
    _ = X % 2 ^ u * C * 2 ^ n + (X - X % 2 ^ u) := by linarith
    _ = mulAcc n M C (k + u) * 2 ^ u := by
        have hpow : (2 : ℤ) ^ n = 2 ^ k * 2 ^ (n - (k + u)) * 2 ^ u := by
          rw [← pow_add, ← pow_add, show k + (n - (k + u)) + u = n by omega]
        rw [hchunk, hXval, mulAcc, hmod, hpow]
        push_cast
        ring

/-- The register fits in `2 * n + 1` signed bits throughout. -/
theorem mulAcc_bounds {n M k : ℕ} {C : ℤ} (hM : M < 2 ^ n) (hk : k ≤ n) (hlo : -2 ^ n ≤ C)
    (hhi : C < 2 ^ n) : -2 ^ (2 * n) ≤ mulAcc n M C k ∧ mulAcc n M C k < 2 ^ (2 * n) := by
  have hpk : (0 : ℤ) < 2 ^ k := by positivity
  have hpnk : (0 : ℤ) < 2 ^ (n - k) := by positivity
  have hsq : (2 : ℤ) ^ (2 * n) = 2 ^ n * (2 ^ k * 2 ^ (n - k)) := by
    rw [← pow_add, Nat.add_sub_cancel' hk, two_mul, pow_add]
  have hm0 : (0 : ℤ) ≤ (M % 2 ^ k : ℕ) := Int.natCast_nonneg _
  have hm : ((M % 2 ^ k : ℕ) : ℤ) + 1 ≤ 2 ^ k := by
    exact_mod_cast Nat.succ_le_of_lt (Nat.mod_lt M (Nat.two_pow_pos k))
  have hrest0 : (0 : ℤ) ≤ (M / 2 ^ k : ℕ) := Int.natCast_nonneg _
  have hrest : ((M / 2 ^ k : ℕ) : ℤ) < 2 ^ (n - k) := by
    have h : M / 2 ^ k < 2 ^ (n - k) := by
      refine Nat.div_lt_of_lt_mul ?_
      rwa [← pow_add, Nat.add_sub_cancel' hk]
    exact_mod_cast h
  have hn1 : (1 : ℤ) ≤ 2 ^ n := one_le_pow₀ (by norm_num)
  rw [mulAcc, hsq]
  generalize ((M % 2 ^ k : ℕ) : ℤ) = m at *
  generalize ((M / 2 ^ k : ℕ) : ℤ) = r at *
  generalize (2 : ℤ) ^ (n - k) = p at *
  generalize (2 : ℤ) ^ k = q at *
  generalize (2 : ℤ) ^ n = b at *
  constructor
  · have h1 : -b * m ≤ C * m := mul_le_mul_of_nonneg_right hlo hm0
    have h2 : (-b * m) * p ≤ C * m * p := mul_le_mul_of_nonneg_right h1 hpnk.le
    nlinarith [mul_nonneg
      (mul_nonneg (by linarith : (0 : ℤ) ≤ b) (by linarith : 0 ≤ q - m)) hpnk.le]
  · have h1 : C * m ≤ b * m := mul_le_mul_of_nonneg_right hhi.le hm0
    have h2 : C * m * p ≤ (b * m) * p := mul_le_mul_of_nonneg_right h1 hpnk.le
    have h3 : p ≤ b * p := le_mul_of_one_le_left hpnk.le hn1
    nlinarith [mul_nonneg (mul_nonneg (by linarith : (0 : ℤ) ≤ b) (by linarith : 0 ≤ q - m - 1))
      hpnk.le]

/-! ### Running division -/

/-- The distance from `L * k` up to the next multiple of `d`. -/
def runDist (L d k : ℕ) : ℕ := d - L * k % d

theorem runDist_zero (L d : ℕ) : runDist L d 0 = d := by
  rw [runDist, Nat.mul_zero, Nat.zero_mod, Nat.sub_zero]

theorem runDist_le (L d k : ℕ) : runDist L d k ≤ d := Nat.sub_le _ _

theorem runQuot_succ {d : ℕ} (hd : 0 < d) (L k : ℕ) :
    L * (k + 1) / d = L * k / d + L / d + if runDist L d k ≤ L % d then 1 else 0 := by
  rw [Nat.mul_succ, runDist]
  split
  case isTrue h => exact Nat.add_div_eq_of_le_mod_add_mod (by omega) hd
  case isFalse h =>
    rw [Nat.add_zero]
    exact Nat.add_div_eq_of_add_mod_lt (by omega)

theorem runDist_succ {d : ℕ} (hd : 0 < d) (L k : ℕ) :
    runDist L d (k + 1) =
      if runDist L d k ≤ L % d then d + runDist L d k - L % d else runDist L d k - L % d := by
  have hk : L * k % d < d := Nat.mod_lt _ hd
  have hL : L % d < d := Nat.mod_lt _ hd
  rw [runDist, runDist, Nat.mul_succ]
  by_cases h : d - L * k % d ≤ L % d
  · have hmod : (L * k + L) % d + d = L * k % d + L % d :=
      Nat.add_mod_add_of_le_add_mod (by omega)
    rw [if_pos h]
    omega
  · rw [if_neg h, Nat.add_mod_of_add_mod_lt (by omega)]
    omega

end SerialArith

end RiscvSoc
