import RiscvSoc.Lib.SerialArith
import RiscvSoc.Rocket.MulDivRun

/-!
# Multiplication

The multiplier keeps the multiplier bits it has not used yet below the partial product it has
built, and consumes `mulUnroll` of them per cycle. `MulLoop` ties its register to
`SerialArith.mulAcc`; one step keeps it, the last step (or an early one, once the remaining
multiplier bits are zero) leaves the product.

A negative first operand is negated before the loop *together with the second one*, so that the
multiplier bits are those of a natural number and the product is unchanged.
-/

namespace RiscvSoc

open Bits SerialArith

namespace MulDivConfig

variable (conf : MulDivConfig)

theorem mulUnroll_pos : 0 < conf.mulUnroll :=
  Nat.pos_of_dvd_of_pos conf.mulUnroll_dvd (by decide)

/-- The number of steps of a full multiplication. -/
def mulSteps : ℕ := w / conf.mulUnroll

theorem mulSteps_mul : conf.mulSteps * conf.mulUnroll = w := Nat.div_mul_cancel conf.mulUnroll_dvd

theorem mulSteps_pos : 0 < conf.mulSteps :=
  Nat.div_pos (Nat.le_of_dvd (by decide) conf.mulUnroll_dvd) conf.mulUnroll_pos

@[simp] theorem mulw_eq : conf.mulw = w := by
  have hpos := conf.mulUnroll_pos
  have hlast : (conf.mulUnroll - 1) / conf.mulUnroll = 0 :=
    Nat.div_eq_of_lt (Nat.sub_lt hpos one_pos)
  rw [mulw, Nat.add_sub_assoc hpos, Nat.add_div_of_dvd_right conf.mulUnroll_dvd, hlast,
    Nat.add_zero, Nat.div_mul_cancel conf.mulUnroll_dvd]

end MulDivConfig

namespace MulDiv

variable {conf : MulDivConfig}

/-! ### The shared register -/

/-- The register behind a `2 * w + 1`-bit product `x`: one spare bit between its halves. -/
theorem mulReg_of_remainder {s : MulDiv} {x : ℕ} (hx : x < 2 ^ (2 * w + 1))
    (h : s.remainder = cat (cat (x / 2 ^ w) 1 0) w (x % 2 ^ w)) : s.mulReg conf = x := by
  have hlow : x % 2 ^ w < 2 ^ w := Nat.mod_lt _ (Nat.two_pow_pos w)
  have hhead : s.remainder / 2 ^ (w + 1) = x / 2 ^ w := by
    rw [h, pow_succ, ← Nat.div_div_eq_div_mul, cat_div hlow, ← pow_one 2, cat_div (by simp)]
  have htop : x / 2 ^ w < 2 ^ (w + 1) := by
    refine Nat.div_lt_of_lt_mul ?_
    rwa [← pow_add, show w + (w + 1) = 2 * w + 1 by ring]
  rw [mulReg, conf.mulw_eq, bits_low one_lt_w.le, h, cat_mod hlow, ← h, bits, hhead,
    show 2 * w + 1 + 1 - (w + 1) = w + 1 by omega, Nat.mod_eq_of_lt htop, cat_div_mod]

/-- The same for a register that still holds the bare multiplier. -/
theorem mulReg_of_lt {s : MulDiv} (h : s.remainder < 2 ^ w) : s.mulReg conf = s.remainder := by
  refine mulReg_of_remainder (h.trans_le (Nat.pow_le_pow_right two_pos (by omega))) ?_
  rw [Nat.div_eq_of_lt h, Nat.mod_eq_of_lt h]
  simp [cat]

/-- The multiplication of `C` by `M` is under way. -/
structure MulLoop (conf : MulDivConfig) (M : ℕ) (C : ℤ) (s : MulDiv) : Prop where
  state : s.state = .sBusy
  isMul : s.isMul = true
  count_lt : s.count < conf.mulSteps
  divisor : s.divisor = wrap (w + 1) C
  mulReg : s.mulReg conf = wrap (2 * w + 1) (mulAcc w M C (s.count * conf.mulUnroll))

/-- The multiplication of `C` by `M` is over. The high half is only meaningful when it was asked
for: an early exit shifts the low half alone. -/
structure MulDone (M : ℕ) (C : ℤ) (s : MulDiv) : Prop where
  state : s.state = if s.isHi then .sMoveRem else .sDone
  low : s.remainder % 2 ^ w = wrap w (C * M)
  high : s.isHi → s.remainder / 2 ^ (w + 1) % 2 ^ w = wrap w (C * M / 2 ^ w)

namespace MulLoop

variable {M : ℕ} {C : ℤ} {s : MulDiv}

section

variable (h : MulLoop conf M C s)
include h

theorem active : Active s := by simp [Active, h.state]

theorem advance_eq : s.advance conf = s.mulStep conf := by
  simp only [advance, h.state, h.isMul, if_true]

theorem used_add_le :
    s.count * conf.mulUnroll + conf.mulUnroll ≤ w := by
  calc s.count * conf.mulUnroll + conf.mulUnroll = (s.count + 1) * conf.mulUnroll := by ring
    _ ≤ conf.mulSteps * conf.mulUnroll := Nat.mul_le_mul_right _ h.count_lt
    _ = w := conf.mulSteps_mul

theorem mplier_eq :
    s.mplier conf = wrap w (mulAcc w M C (s.count * conf.mulUnroll)) := by
  rw [mplier, conf.mulw_eq, bits_low one_lt_w.le, h.mulReg, wrap_mod (by omega)]

/-- **The sum of a step.** The next register, before an early exit is taken into account, is the
next term of the recurrence. -/
theorem nextMulReg_eq (hM : M < 2 ^ w) (hlo : -2 ^ w ≤ C) (hhi : C < 2 ^ w) :
    s.nextMulReg conf = wrap (2 * w + 1) (mulAcc w M C ((s.count + 1) * conf.mulUnroll)) := by
  have hused := h.used_add_le
  set k := s.count * conf.mulUnroll with hk
  set u := conf.mulUnroll with hu
  obtain ⟨hAlo, hAhi⟩ := @mulAcc_bounds w M k C hM (by omega) hlo hhi
  set A := mulAcc w M C k with hA
  have hw : (0 : ℤ) < 2 ^ w := by positivity
  have hsq : (2 : ℤ) ^ (2 * w) = 2 ^ w * 2 ^ w := by rw [two_mul, pow_add]
  have haccum : s.accum conf = A / 2 ^ w := by
    have hslice : bits (s.mulReg conf) (2 * conf.mulw) conf.mulw = wrap (w + 1) (A / 2 ^ w) := by
      rw [conf.mulw_eq, h.mulReg, bits_of_lt (wrap_lt _ _), show 2 * w + 1 = w + 1 + w by ring,
        wrap_div]
    rw [accum, hslice, conf.mulw_eq]
    refine signed_wrap (Nat.succ_pos w) ?_ ?_
    · refine (Int.le_ediv_iff_mul_le hw).mpr ?_
      rw [Nat.succ_sub_one]
      linarith
    · refine Int.ediv_lt_of_lt_mul hw ?_
      rw [Nat.succ_sub_one]
      linarith
  have hmpcand : s.mpcand = C := by
    rw [mpcand, h.divisor]
    exact signed_wrap (Nat.succ_pos w) hlo hhi
  have hchunk : ((bits (s.mplier conf) (u - 1) 0 : ℕ) : ℤ) = A % 2 ^ u := by
    rw [bits_low conf.mulUnroll_pos, h.mplier_eq, wrap_mod (by omega), wrap_cast]
  have hrest : bits (s.mplier conf) (w - 1) u = wrap w A / 2 ^ u := by
    rw [h.mplier_eq, bits_of_lt]
    rw [Nat.sub_add_cancel one_lt_w.le]
    exact wrap_lt _ _
  have hrest_lt : wrap w A / 2 ^ u < 2 ^ (w - u) := by
    refine Nat.div_lt_of_lt_mul ?_
    rw [← pow_add, Nat.add_sub_cancel' (by omega)]
    exact wrap_lt _ _
  rw [nextMulReg, prod, conf.mulw_eq, ← hu, hchunk, hmpcand, haccum, hrest, cat_wrap hrest_lt,
    show w + 1 + u + (w - u) = 2 * w + 1 by omega, Nat.add_mul, Nat.one_mul, ← hk,
    ← mulAcc_add C hused]
  congr 1
  push_cast
  rw [wrap_cast]

end

/-- A register that held `x` before the step's last rearrangement holds it afterwards. -/
theorem remainder_mulStep (s : MulDiv) : (s.mulStep conf).remainder =
    cat (cat (s.nextMulReg1 conf / 2 ^ w) 1 0) w (s.nextMulReg1 conf % 2 ^ w) := by
  rw [← bits_low one_lt_w.le]
  rfl

theorem nextMulReg1_of_not_eOut (hx : s.nextMulReg conf < 2 ^ (2 * w + 1))
    (he : s.mulEOut conf = false) : s.nextMulReg1 conf = s.nextMulReg conf := by
  rw [nextMulReg1, he, conf.mulw_eq, bits_of_lt hx, bits_low one_lt_w.le]
  exact cat_div_mod _ _

section

variable (h : MulLoop conf M C s)
include h

theorem count_lt_of_mulSteps : s.count + 1 < 2 ^ log2Up (w + 1) := by
  have hle : s.count + 1 ≤ w := (Nat.succ_le_of_lt h.count_lt).trans (Nat.div_le_self _ _)
  exact (Nat.lt_succ_of_le hle).trans_le (le_two_pow_log2Up (w + 1))

/-- **One step of the multiplication.** -/
theorem mulStep (hM : M < 2 ^ w) (hlo : -2 ^ w ≤ C) (hhi : C < 2 ^ w) (he : s.mulEOut conf = false)
    (hc : s.count + 1 < conf.mulSteps) :
    MulLoop conf M C (s.mulStep conf) := by
  have hnext := h.nextMulReg_eq hM hlo hhi
  have hlt : s.nextMulReg conf < 2 ^ (2 * w + 1) := hnext ▸ wrap_lt _ _
  have hcount : (s.mulStep conf).count = s.count + 1 := Nat.mod_eq_of_lt h.count_lt_of_mulSteps
  refine ⟨?_, h.isMul, hcount ▸ hc, h.divisor, ?_⟩
  · have hne : (s.count == conf.mulw / conf.mulUnroll - 1) = false := by
      rw [conf.mulw_eq, ← MulDivConfig.mulSteps]
      exact beq_false_of_ne (by omega)
    simp only [MulDiv.mulStep, he, hne, Bool.or_false, Bool.false_eq_true, if_false, h.state]
  · rw [hcount, ← hnext, ← nextMulReg1_of_not_eOut hlt he]
    refine mulReg_of_remainder ?_ (remainder_mulStep s)
    rwa [nextMulReg1_of_not_eOut hlt he]

/-! ### Leaving the loop -/

/-- An early exit is taken only when the rest of the multiplier is zero. -/
theorem lt_of_mulEOut (hM : M < 2 ^ w) (he : s.mulEOut conf) :
    0 < s.count ∧ s.isHi = false ∧ M < 2 ^ (s.count * conf.mulUnroll) := by
  have hused := h.used_add_le
  have hpos := conf.mulUnroll_pos
  simp only [mulEOut, Bool.and_eq_true, bne_iff_ne, Bool.not_eq_true', beq_iff_eq,
    conf.mulw_eq] at he
  obtain ⟨⟨⟨⟨-, -⟩, hne⟩, hhi⟩, hzero⟩ := he
  refine ⟨Nat.pos_of_ne_zero hne, hhi, ?_⟩
  set k := s.count * conf.mulUnroll with hk
  have hamount : bits k (log2Up w - 1) 0 = k := by
    have hkw : k < 2 ^ log2Up w := by
      have h64 := le_two_pow_log2Up w
      omega
    have hup : 0 < log2Up w := by decide
    rw [bits_low hup, Nat.mod_eq_of_lt hkw]
  have hmask : s.eOutMask conf = 2 ^ w - 2 ^ (w - k) := by
    have hsub : 2 ^ (w - k) ≤ 2 ^ w := Nat.pow_le_pow_right two_pos (Nat.sub_le w k)
    have hquot : (-2 ^ w : ℤ) / 2 ^ k = -2 ^ (w - k) := by
      have hsplit : (2 : ℤ) ^ w = 2 ^ (w - k) * 2 ^ k := by
        rw [← pow_add, Nat.sub_add_cancel (by omega)]
      rw [hsplit, ← neg_mul, Int.mul_ediv_cancel _ (by positivity)]
    have hcast : (-2 ^ (w - k) : ℤ) ≡ ((2 ^ w - 2 ^ (w - k) : ℕ) : ℤ) [ZMOD 2 ^ w] :=
      Int.modEq_iff_dvd.mpr ⟨1, by push_cast [Nat.cast_sub hsub]; ring⟩
    rw [eOutMask, conf.mulw_eq, hamount, hquot, wrap_congr hcast,
      wrap_of_lt (Nat.sub_lt (Nat.two_pow_pos w) (Nat.two_pow_pos (w - k)))]
  have hrest : s.mplier conf % 2 ^ (w - k) = M / 2 ^ k := by
    have h1 : ((s.mplier conf % 2 ^ (w - k) : ℕ) : ℤ) = (M / 2 ^ k : ℕ) := by
      have hlt : M / 2 ^ k < 2 ^ (w - k) := by
        refine Nat.div_lt_of_lt_mul ?_
        rwa [← pow_add, Nat.add_sub_cancel' (by omega)]
      rw [h.mplier_eq, wrap_mod (Nat.sub_le w k), wrap_cast, mulAcc_emod C le_rfl,
        Nat.mod_eq_of_lt hlt]
    exact_mod_cast h1
  have hcompl : 2 ^ w - 1 - (2 ^ w - 2 ^ (w - k)) = 2 ^ (w - k) - 1 := by
    have hsub : 2 ^ (w - k) ≤ 2 ^ w := Nat.pow_le_pow_right two_pos (Nat.sub_le w k)
    omega
  rw [andNot, hmask, hcompl, Nat.and_two_pow_sub_one_eq_mod, hrest] at hzero
  exact (Nat.div_eq_zero_iff_lt (Nat.two_pow_pos k)).mp hzero

theorem eOutRes_eq (hpos : 0 < s.count) :
    s.eOutRes conf = s.mulReg conf / 2 ^ (w - s.count * conf.mulUnroll) := by
  have hused := h.used_add_le
  have hcu : 0 < s.count * conf.mulUnroll := Nat.mul_pos hpos conf.mulUnroll_pos
  set k := s.count * conf.mulUnroll with hk
  have hcast : ((w : ℤ) - s.count * conf.mulUnroll) = ((w - k : ℕ) : ℤ) := by
    rw [Nat.cast_sub (by omega), hk]
    push_cast
    rfl
  have h64 := le_two_pow_log2Up w
  have h65 := le_two_pow_log2Up (w + 1)
  have hup : 0 < log2Up w := by decide
  rw [eOutRes, conf.mulw_eq, hcast, wrap_of_lt (by omega), bits_low hup,
    Nat.mod_eq_of_lt (by omega)]

/-- **The step that ends the multiplication**, early or not. -/
theorem mulStep_done (hM : M < 2 ^ w) (hlo : -2 ^ w ≤ C) (hhi : C < 2 ^ w)
    (hend : s.mulEOut conf ∨ s.count + 1 = conf.mulSteps) :
    MulDone M C (s.mulStep conf) := by
  have hnext := h.nextMulReg_eq hM hlo hhi
  have hlt : s.nextMulReg conf < 2 ^ (2 * w + 1) := hnext ▸ wrap_lt _ _
  have hlow : (s.mulStep conf).remainder % 2 ^ w = s.nextMulReg1 conf % 2 ^ w := by
    rw [remainder_mulStep, cat_mod (Nat.mod_lt _ (Nat.two_pow_pos w))]
  have hstate : (s.mulStep conf).state = if s.isHi then .sMoveRem else .sDone := by
    have hcond : (s.mulEOut conf || s.count == conf.mulw / conf.mulUnroll - 1) = true := by
      rw [Bool.or_eq_true, beq_iff_eq, conf.mulw_eq, ← MulDivConfig.mulSteps]
      exact hend.imp_right fun hc => by omega
    exact if_pos hcond
  rcases hcase : s.mulEOut conf with _ | _
  · have hc : s.count + 1 = conf.mulSteps := by simpa [hcase] using hend
    rw [hc, conf.mulSteps_mul, mulAcc_self hM] at hnext
    have hreg := nextMulReg1_of_not_eOut hlt hcase
    refine ⟨hstate, ?_, fun _ => ?_⟩
    · rw [hlow, hreg, hnext, wrap_mod (by omega)]
    · have hhead : (s.mulStep conf).remainder / 2 ^ (w + 1) = s.nextMulReg1 conf / 2 ^ w := by
        rw [remainder_mulStep, pow_succ, ← Nat.div_div_eq_div_mul,
          cat_div (Nat.mod_lt _ (Nat.two_pow_pos w))]
        exact @cat_div _ 1 0 (by decide)
      rw [hhead, hreg, hnext, show 2 * w + 1 = w + 1 + w by ring, wrap_div,
        wrap_mod (Nat.le_succ w)]
  · obtain ⟨hpos, hhi', hMlt⟩ := h.lt_of_mulEOut hM hcase
    have hused := h.used_add_le
    refine ⟨hstate, ?_, fun hi => absurd hi (by simp [MulDiv.mulStep, hhi'])⟩
    rw [hlow, nextMulReg1, hcase, conf.mulw_eq, if_pos rfl, bits_low one_lt_w.le,
      cat_mod (Nat.mod_lt _ (Nat.two_pow_pos w)), h.eOutRes_eq hpos, h.mulReg, mulAcc_of_lt hMlt]
    set k := s.count * conf.mulUnroll with hk
    rw [show 2 * w + 1 = (w + 1 + k) + (w - k) by omega, wrap_div,
      Int.mul_ediv_cancel _ (by positivity), wrap_mod (by omega)]

/-- The loop ends, and nothing but the datapath registers changes on the way. -/
theorem reaches (hM : M < 2 ^ w) (hlo : -2 ^ w ≤ C) (hhi : C < 2 ^ w) :
    ∃ t, Reaches conf s t ∧ MulDone M C t ∧ t.req = s.req ∧ t.isHi = s.isHi ∧
      t.negOut = s.negOut := by
  -- Induction on the number of steps left.
  obtain ⟨left, hleft⟩ : ∃ left, conf.mulSteps = s.count + 1 + left :=
    ⟨conf.mulSteps - (s.count + 1), by have := h.count_lt; omega⟩
  induction left generalizing s with
  | zero =>
    exact ⟨s.mulStep conf, .one h.active h.advance_eq,
      h.mulStep_done hM hlo hhi (.inr hleft.symm), rfl, rfl, rfl⟩
  | succ left ih =>
    rcases he : s.mulEOut conf with _ | _
    · have hcount : (s.mulStep conf).count = s.count + 1 := Nat.mod_eq_of_lt h.count_lt_of_mulSteps
      obtain ⟨t, ht, hdone, hreq, hhi', hneg⟩ :=
        ih (h.mulStep hM hlo hhi he (by omega)) (by omega)
      exact ⟨t, .step h.active (h.advance_eq ▸ ht), hdone, hreq, hhi', hneg⟩
    · exact ⟨s.mulStep conf, .one h.active h.advance_eq,
        h.mulStep_done hM hlo hhi (.inl he), rfl, rfl, rfl⟩

end

end MulLoop

theorem MulDone.reaches {M : ℕ} {C : ℤ} {s : MulDiv} (h : MulDone M C s)
    (hneg : s.negOut = false) :
    ∃ t, Reaches conf s t ∧ t.respValid ∧ t.req = s.req ∧
      t.remainder % 2 ^ w = wrap w (if s.isHi then C * M / 2 ^ w else C * M) := by
  rcases hhi : s.isHi with _ | _
  · have hstate := h.state
    rw [hhi] at hstate
    exact ⟨s, .refl s, by rw [respValid, hstate]; rfl, rfl, h.low⟩
  · have hstate : s.state = .sMoveRem := by rw [h.state, hhi]; rfl
    have hadv : s.advance conf = s.moveRem := by rw [advance, hstate]
    have hactive : Active s := by simp [Active, hstate]
    refine ⟨s.moveRem, .one hactive hadv, by simp [respValid, moveRem, hneg], rfl, ?_⟩
    have hslice : s.moveRem.remainder = s.remainder / 2 ^ (w + 1) % 2 ^ w := by
      simp only [moveRem, bits, show 2 * w + 1 - (w + 1) = w by omega]
    rw [hslice, h.high hhi, Nat.mod_eq_of_lt (wrap_lt _ _), if_pos rfl]

/-! ### From the request to the loop -/

/-- A multiply request enters the loop with a multiplier and a multiplicand whose product is that
of its operands. -/
theorem accept_mulLoop (s : MulDiv) {r : MultiplierReq} (hmul : (conf.decode r.fn).1 = true) :
    ∃ M C t, Reaches conf (accept conf s r) t ∧ MulLoop conf M C t ∧ M < 2 ^ w ∧ -2 ^ w ≤ C ∧
      C < 2 ^ w ∧ C * M = r.lhs conf * r.rhs conf ∧ t.req = r ∧
      t.isHi = (conf.decode r.fn).2.1 ∧ t.negOut = false := by
  have hrem := accept_remainder conf s r
  have hdiv := accept_divisor conf s r
  have hstate := accept_state conf s r
  have hneg : (accept conf s r).negOut = false := by rw [accept_negOut, hmul]; rfl
  have hLlo : -2 ^ (w - 1) ≤ r.lhs conf := Dw.neg_le_operand ..
  have hLhi : r.lhs conf < 2 ^ w := Dw.operand_lt ..
  have hRlo : -2 ^ (w - 1) ≤ r.rhs conf := Dw.neg_le_operand ..
  have hRhi : r.rhs conf < 2 ^ w := Dw.operand_lt ..
  have hw := two_pow_w
  have hpos : (0 : ℤ) < 2 ^ (w - 1) := by positivity
  simp only [hmul, Bool.true_eq_false, and_false, or_false] at hstate
  set a := accept conf s r with ha
  have hcount : a.count = 0 := rfl
  have hisMul : a.isMul = true := hmul
  rcases Int.lt_or_le (r.lhs conf) 0 with hL | hL
  · -- The first operand is negative: both are negated on the way into the loop.
    rw [if_pos hL] at hstate
    have hadv : a.advance conf = a.negInputs := by rw [advance, hstate]
    obtain ⟨M, hM⟩ := Int.eq_ofNat_of_zero_le (show 0 ≤ -r.lhs conf by omega)
    have hMlt : M < 2 ^ w := by
      have h : (M : ℤ) < 2 ^ w := by omega
      exact_mod_cast h
    have hrem' : a.negInputs.remainder = M := by
      have h : a.negInputs.remainder = a.negatedRemainder := by
        simp only [negInputs, hisMul, Bool.or_true, if_true]
      rw [h, negatedRemainder, bits_low one_lt_w.le, hrem, Nat.mod_eq_of_lt (wrap_lt _ _),
        wrap_congr (wrap_modEq w (r.lhs conf)).neg, hM, wrap_of_lt hMlt]
    have hdiv' : a.negInputs.divisor = wrap (w + 1) (-r.rhs conf) := by
      have h : a.negInputs.divisor = a.subtractor := by
        simp only [negInputs, hisMul, Bool.or_true, if_true]
      have hzero : bits a.remainder (2 * w) w = 0 := by
        rw [bits, hrem, Nat.div_eq_of_lt (wrap_lt _ _), Nat.zero_mod]
      rw [h, subtractor, hzero, bits_zero_right, hdiv, Nat.mod_eq_of_lt (wrap_lt _ _),
        Nat.cast_zero, zero_sub, wrap_congr (wrap_modEq (w + 1) (r.rhs conf)).neg]
    refine ⟨M, -r.rhs conf, a.negInputs,
      .one (by simp [Active, hstate]) hadv, ⟨rfl, hisMul, conf.mulSteps_pos, hdiv', ?_⟩, hMlt,
      by omega, by omega, by rw [← hM]; ring, rfl, rfl, hneg⟩
    have hlt : a.negInputs.remainder < 2 ^ w := hrem' ▸ hMlt
    have hc : a.negInputs.count = 0 := hcount
    rw [mulReg_of_lt hlt, hrem', hc, Nat.zero_mul, mulAcc_zero, wrap_of_lt
      (hMlt.trans_le (Nat.pow_le_pow_right two_pos (by omega)))]
  · rw [if_neg (not_lt.mpr hL)] at hstate
    obtain ⟨M, hM⟩ := Int.eq_ofNat_of_zero_le hL
    have hMlt : M < 2 ^ w := by
      have h : (M : ℤ) < 2 ^ w := by omega
      exact_mod_cast h
    have hrem' : a.remainder = M := by rw [hrem, hM, wrap_of_lt hMlt]
    refine ⟨M, r.rhs conf, a, .refl a,
      ⟨hstate, hisMul, conf.mulSteps_pos, hdiv, ?_⟩, hMlt, by omega, hRhi,
      by rw [hM]; ring, rfl, rfl, hneg⟩
    have hlt : a.remainder < 2 ^ w := hrem' ▸ hMlt
    rw [mulReg_of_lt hlt, hrem', hcount, Nat.zero_mul, mulAcc_zero, wrap_of_lt
      (hMlt.trans_le (Nat.pow_le_pow_right two_pos (by omega)))]

end MulDiv

/-! ### The response -/

/-- The multiply instructions: only the low half has a word form. -/
def MultiplierReq.IsMulInstr (r : MultiplierReq) : Prop :=
  r.fn = .mul ∨ r.dw = .dw64 ∧ (r.fn = .mulh ∨ r.fn = .mulhu ∨ r.fn = .mulhsu)

instance (r : MultiplierReq) : Decidable r.IsMulInstr :=
  inferInstanceAs (Decidable (_ ∨ _))

/-- The product of the operands the unit decodes gives the architectural result. -/
theorem result_lhs_mul_rhs (conf : MulDivConfig) {r : MultiplierReq} (hr : r.IsMulInstr) :
    r.dw.result (if (conf.decode r.fn).2.1 then r.lhs conf * r.rhs conf / 2 ^ w
      else r.lhs conf * r.rhs conf) = riscvResult r := by
  obtain ⟨fn, dw, in1, in2, tag⟩ := r
  rcases hr with rfl | ⟨rfl, rfl | rfl | rfl⟩
  · -- The low half does not depend on how the operands were read.
    exact Dw.result_congr ((Dw.operand_modEq ..).mul (Dw.operand_modEq ..))
  all_goals rfl

theorem MulDiv.responds_of_isMulInstr (conf : MulDivConfig) (s : MulDiv) (io : ℕ → MulDivIn)
    (hfire : s.reqFire (io 0)) (hkill : ∀ n, (io (n + 1)).kill = false)
    (hr : (io 0).req.IsMulInstr) :
    ∃ n, MulDiv.Responds conf s io n (riscvResult (io 0).req) := by
  have hmul : (conf.decode (io 0).req.fn).1 = true := by
    rcases hr with h | ⟨-, h | h | h⟩ <;> rw [h] <;> rfl
  obtain ⟨M, C, t, ht, hloop, hM, hlo, hhi, hprod, hreq, hisHi, hneg⟩ :=
    MulDiv.accept_mulLoop s hmul
  obtain ⟨u, hu, hdone, hureq, huhi, huneg⟩ := hloop.reaches hM hlo hhi
  obtain ⟨v, hv, hvalid, hvreq, hlow⟩ := hdone.reaches (huneg.trans hneg)
  have hdata : v.respData = riscvResult (io 0).req := by
    rw [MulDiv.respData_of_low hlow, hvreq, hureq, hreq, huhi, hisHi, hprod,
      result_lhs_mul_rhs conf hr]
  exact hdata ▸ MulDiv.responds_of_reaches hfire hkill ((ht.trans hu).trans hv) hvalid

/-- **Multiplication.** Whatever the configuration and however the don't-cares of the command
table are resolved, an accepted multiply request that is not killed is answered, with its
architectural result. -/
theorem mul_responds (conf : MulDivConfig) (s : MulDiv) (io : ℕ → MulDivIn)
    (hfire : s.reqFire (io 0)) (hkill : ∀ n, (io (n + 1)).kill = false)
    (hr : (io 0).req.IsMulInstr) :
    ∃ n, MulDiv.Responds conf s io n (riscvResult (io 0).req) :=
  MulDiv.responds_of_isMulInstr conf s io hfire hkill hr

/-- `MULHSU` of `-2` and `3`, eight bits a cycle. -/
theorem mul_responds_mulhsu :
    ∃ n, MulDiv.Responds ⟨8, true, false, true, by decide⟩ .reset
      (.hold ⟨.mulhsu, .dw64, 2 ^ 64 - 2, 3, 0⟩) n (2 ^ 64 - 1) :=
  mul_responds ⟨8, true, false, true, by decide⟩ .reset
    (.hold ⟨.mulhsu, .dw64, 2 ^ 64 - 2, 3, 0⟩) rfl (fun _ => rfl) (by decide)

end RiscvSoc
