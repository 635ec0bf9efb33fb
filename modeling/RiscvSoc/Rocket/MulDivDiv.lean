import RiscvSoc.Lib.SerialArith
import RiscvSoc.Rocket.MulDivRun

/-!
# Division

The divider works on magnitudes: negative operands are negated on the way in, the loop is
`SerialArith.divReg` one step per cycle, and the quotient or the remainder is negated on the way
out when the recorded signs ask for it. An early exit only ever *skips* steps, at the start of the
loop, whose quotient bits are zero.

## The zero divisor

The first step of the loop finds out that the divisor is zero, and clears `neg_out` so that the
all-ones quotient is left alone. It clears it for `REM` too, where the sign of the dividend has to
come back; `riscvResult` is missed there, unless the dividend is its own negation
(`RemByZero`).
-/

namespace RiscvSoc

open Bits SerialArith

/-- What the unit computes: truncating division, but the *magnitude* of the dividend as the
remainder by zero. -/
def unitDivRem (x y : ℤ) : ℤ × ℤ := if y = 0 then (-1, |x|) else (x.tdiv y, x.tmod y)

namespace MulDiv

variable {conf : MulDivConfig}

/-! ### The loop -/

/-- The division of `N` by `d` is under way. -/
structure DivLoop (N d : ℕ) (s : MulDiv) : Prop where
  state : s.state = .sBusy
  isMul : s.isMul = false
  count_le : s.count ≤ w
  divisor : s.divisor = d
  remainder : s.remainder = divReg w N d s.count

/-- The division of `N` by `d` is over: the remainder sits above the quotient. -/
structure DivDone (N d : ℕ) (s : MulDiv) : Prop where
  state : s.state = if s.isHi then .sMoveRem else if s.negOut then .sNegOutput else .sDone
  remainder : s.remainder = N % d * 2 ^ (w + 1) + quot d (w + 1) N

@[simp] theorem divStep_req (s : MulDiv) : (s.divStep conf).req = s.req := by
  simp only [divStep]
  split <;> split <;> rfl

@[simp] theorem divStep_isHi (s : MulDiv) : (s.divStep conf).isHi = s.isHi := by
  simp only [divStep]
  split <;> split <;> rfl

theorem shift_pos (s : MulDiv) (h : (decide (0 < s.eOutPos) || s.eOutZero) = true) :
    0 < s.shift := by
  rcases hz : s.eOutZero with _ | _
  · have hpos : 0 < s.eOutPos := by simpa [hz] using h
    have hup : 0 < log2Up w := by decide
    have hlt : s.eOutPos < 2 ^ log2Up w := wrap_lt _ _
    rwa [shift, hz, if_neg (by simp), bits_low hup, Nat.mod_eq_of_lt hlt]
  · rw [shift, hz, if_pos rfl]
    decide

namespace DivLoop

variable {N d : ℕ} {s : MulDiv}

theorem active (h : DivLoop N d s) : Active s := by simp [Active, h.state]

theorem advance_eq (h : DivLoop N d s) : s.advance conf = s.divStep conf := by
  simp only [advance, h.state, h.isMul, Bool.false_eq_true, if_false]

theorem head_lt (hN : N < 2 ^ w) (hd : d < 2 ^ w) (k : ℕ) :
    divHead w N d k < d + 2 ^ w ∧ divHead w N d k < 2 ^ (w + 1) := by
  rw [pow_succ]
  rcases Nat.eq_zero_or_pos d with rfl | hpos
  · have h : divHead w N 0 k ≤ N := by
      rw [divHead_zero_divisor]
      exact Nat.div_le_self _ _
    omega
  · have h := @divHead_lt w N d k hpos
    omega

section

variable (h : DivLoop N d s) (hN : N < 2 ^ w) (hd : d < 2 ^ w)
include h hN hd

theorem less_eq :
    s.less = decide (s.remainder / 2 ^ w < d) ∧
      (¬s.less → bits s.subtractor (w - 1) 0 = s.remainder / 2 ^ w - d) := by
  obtain ⟨hhead, hhead'⟩ := head_lt hN hd s.count
  have hV : s.remainder / 2 ^ w = divHead w N d s.count := by
    rw [h.remainder, divReg_div hN h.count_le]
  rw [← hV] at hhead hhead'
  have hslice : bits s.remainder (2 * w) w = s.remainder / 2 ^ w := by
    rw [bits, show 2 * w + 1 - w = w + 1 by omega, Nat.mod_eq_of_lt hhead']
  have hdiv : bits s.divisor w 0 = d := by
    rw [bits_zero_right, h.divisor,
      Nat.mod_eq_of_lt (hd.trans (Nat.pow_lt_pow_succ Nat.one_lt_two))]
  have hsub : s.subtractor = wrap (w + 1) ((s.remainder / 2 ^ w : ℕ) - d : ℤ) := by
    rw [subtractor, hslice, hdiv]
  generalize s.remainder / 2 ^ w = V at *
  have hpow : (2 : ℕ) ^ (w + 1) = 2 ^ w + 2 ^ w := by rw [pow_succ]; omega
  rcases Nat.lt_or_ge V d with hlt | hge
  · -- A borrow: the difference wraps to the upper half.
    have hcast : (V - d : ℤ) ≡ ((V + 2 ^ (w + 1) - d : ℕ) : ℤ) [ZMOD 2 ^ (w + 1)] :=
      Int.modEq_iff_dvd.mpr ⟨1, by rw [Nat.cast_sub (by omega)]; push_cast; ring⟩
    rw [wrap_congr hcast, wrap_of_lt (by omega)] at hsub
    have hless : s.less = true := by
      rw [less, ← Nat.succ_sub_one w, testBit_pred (Nat.succ_pos w), hsub, Nat.succ_sub_one,
        Nat.mod_eq_of_lt (by omega), decide_eq_true_eq]
      omega
    exact ⟨by rw [hless, decide_eq_true hlt], fun hn => absurd hless hn⟩
  · have hcast : (V - d : ℤ) = ((V - d : ℕ) : ℤ) := by rw [Nat.cast_sub hge]
    rw [hcast, wrap_of_lt (by omega)] at hsub
    have hless : s.less = false := by
      rw [less, ← Nat.succ_sub_one w, testBit_pred (Nat.succ_pos w), hsub, Nat.succ_sub_one,
        Nat.mod_eq_of_lt (by omega), decide_eq_false_iff_not]
      omega
    refine ⟨by rw [hless, decide_eq_false (by omega)], fun _ => ?_⟩
    rw [bits_low one_lt_w.le, hsub, Nat.mod_eq_of_lt (by omega)]

theorem shifted_eq :
    cat (cat (if s.less then bits s.remainder (2 * w - 1) w else bits s.subtractor (w - 1) 0) w
      (bits s.remainder (w - 1) 0)) 1 (!s.less).toNat = divShift w d s.remainder := by
  obtain ⟨hless, hsub⟩ := h.less_eq hN hd
  have hlow : bits s.remainder (w - 1) 0 = s.remainder % 2 ^ w := bits_low one_lt_w.le _
  rw [divShift, hlow, cat, cat, pow_one]
  rcases hcase : s.less with _ | _
  · rw [hcase] at hless
    have hge : ¬s.remainder / 2 ^ w < d := of_decide_eq_false hless.symm
    rw [if_neg hge, if_neg hge, if_neg (by simp), hsub (by simp [hcase])]
    rfl
  · rw [hcase] at hless
    have hlt : s.remainder / 2 ^ w < d := of_decide_eq_true hless.symm
    have hslice : bits s.remainder (2 * w - 1) w = s.remainder / 2 ^ w := by
      have hw : 2 * w - 1 + 1 - w = w := rfl
      rw [bits, hw, Nat.mod_eq_of_lt (hlt.trans hd)]
    rw [if_pos hlt, if_pos hlt, if_pos rfl, hslice]
    rfl

theorem less_of_count_zero (hc : s.count = 0) : s.less = decide (0 < d) := by
  rw [(h.less_eq hN hd).1, h.remainder, hc, divReg_zero hN, Nat.div_eq_of_lt hN]

/-- The steps an early exit skips would all have shifted in a zero. -/
theorem divReg_shift (hc : s.count = 0)
    (hpos : 0 < d) : s.shift < w ∧ divReg w N d s.shift = N * 2 ^ s.shift := by
  have hrem : bits s.remainder (w - 1) 0 = N := by
    rw [bits_low one_lt_w.le, h.remainder, hc, divReg_zero hN, Nat.mod_eq_of_lt hN]
  have hdiv : bits s.divisor (w - 1) 0 = d := by
    rw [bits_low one_lt_w.le, h.divisor, Nat.mod_eq_of_lt hd]
  have hNm : N < 2 ^ (msb N + 1) := lt_two_pow_msb N
  have hdm : 2 ^ msb d ≤ d := two_pow_msb_le hpos.ne'
  have hNw : msb N < w := msb_lt (by decide) hN
  have hdw : msb d < w := msb_lt (by decide) hd
  have hjump : ∀ k < w, msb N + 1 ≤ msb d + (w - k + 1) → divReg w N d k = N * 2 ^ k := by
    intro k hk hle
    refine divReg_jump hk.le ?_
    rw [Nat.div_div_eq_div_mul, ← pow_succ]
    refine Nat.div_lt_of_lt_mul ?_
    calc N < 2 ^ (msb N + 1) := hNm
      _ ≤ 2 ^ (msb d + (w - k + 1)) := Nat.pow_le_pow_right two_pos hle
      _ = 2 ^ (w - k + 1) * 2 ^ msb d := by rw [pow_add, Nat.mul_comm]
      _ ≤ 2 ^ (w - k + 1) * d := Nat.mul_le_mul_left _ hdm
  rcases hz : s.eOutZero with _ | _
  · have hle : msb d ≤ msb N := by
      simpa [eOutZero, dividendMSB, divisorMSB, hrem, hdiv] using hz
    have h64 := le_two_pow_log2Up w
    have hposn : s.eOutPos = w - 1 + msb d - msb N := by
      have hcast : (((w - 1 : ℕ) : ℤ) + msb d - msb N) = ((w - 1 + msb d - msb N : ℕ) : ℤ) := by
        omega
      rw [eOutPos, divisorMSB, dividendMSB, hrem, hdiv, hcast, wrap_of_lt (by omega)]
    have hshift : s.shift = w - 1 + msb d - msb N := by
      have hup : 0 < log2Up w := by decide
      rw [shift, hz, if_neg (by simp), hposn, bits_low hup, Nat.mod_eq_of_lt (by omega)]
    have hlt : w - 1 + msb d - msb N < w := by omega
    rw [hshift]
    exact ⟨hlt, hjump _ hlt (by omega)⟩
  · have hlt : msb N < msb d := by
      simpa [eOutZero, dividendMSB, divisorMSB, hrem, hdiv] using hz
    have hshift : s.shift = w - 1 := by rw [shift, hz, if_pos rfl]
    rw [hshift]
    exact ⟨Nat.sub_lt (by decide) one_pos, hjump _ (Nat.sub_lt (by decide) one_pos) (by omega)⟩

end

theorem count_succ_lt (h : DivLoop N d s) : s.count + 1 < 2 ^ log2Up (w + 1) := by
  have hup : log2Up (w + 1) = 7 := log2Up_eq (by decide) (by decide)
  have hle : s.count ≤ 64 := h.count_le
  rw [hup]
  omega

section

variable (h : DivLoop N d s) (hN : N < 2 ^ w) (hd : d < 2 ^ w)
include h hN hd

/-- **One step of the division.** A first step against a zero divisor forgets the sign. -/
theorem divStep (hc : s.count < w) :
    DivLoop N d (s.divStep conf) ∧ s.count < (s.divStep conf).count ∧
      (s.divStep conf).negOut = (s.negOut && !(s.count == 0 && d == 0)) := by
  have hcount : (s.count + 1) % 2 ^ log2Up (w + 1) = s.count + 1 := Nat.mod_eq_of_lt h.count_succ_lt
  have hlast : (s.count == w) = false := beq_false_of_ne hc.ne
  have hshifted := h.shifted_eq hN hd
  rw [h.remainder, divShift_divReg hN hc, ← h.remainder] at hshifted
  have hzero : s.count = 0 → s.less = decide (0 < d) := h.less_of_count_zero hN hd
  have hneg : (s.divStep conf).negOut = (s.negOut && !(s.count == 0 && d == 0)) := by
    rcases Nat.eq_zero_or_pos s.count with h0 | h0
    · rcases Nat.eq_zero_or_pos d with hd0 | hd0
      · simp [MulDiv.divStep, h0, hzero h0, hd0]
      · have hdne : d ≠ 0 := hd0.ne'
        rcases hcond : conf.earlyOut && s.divEOut with _ | _ <;>
          simp [MulDiv.divStep, h0, hzero h0, hd0, hdne, hcond]
    · have h0' : (s.count == 0) = false := beq_false_of_ne h0.ne'
      rcases hcond : conf.earlyOut && s.divEOut with _ | _ <;>
        simp [MulDiv.divStep, h0', hcond]
  rcases hcond : conf.earlyOut && s.divEOut with _ | _
  · have hstep : (s.divStep conf).state = .sBusy ∧ (s.divStep conf).isMul = false ∧
        (s.divStep conf).divisor = d ∧ (s.divStep conf).count = s.count + 1 ∧
        (s.divStep conf).remainder = divReg w N d (s.count + 1) := by
      simp only [MulDiv.divStep, hcond, hlast, hcount, hshifted, Bool.false_eq_true, if_false]
      split <;> exact ⟨h.state, h.isMul, h.divisor, rfl, rfl⟩
    obtain ⟨h1, h2, h3, h4, h5⟩ := hstep
    exact ⟨⟨h1, h2, by omega, h3, h4 ▸ h5⟩, by omega, hneg⟩
  · -- The early exit: only from the first step, and only against a nonzero divisor.
    have hE : s.divEOut = true := (Bool.and_eq_true_iff.mp hcond).2
    simp only [divEOut, Bool.and_eq_true, beq_iff_eq] at hE
    obtain ⟨⟨h0, hless⟩, hpos⟩ := hE
    have hd0 : 0 < d := of_decide_eq_true ((hzero h0).symm.trans hless)
    obtain ⟨hk, hjump⟩ := h.divReg_shift hN hd h0 hd0
    have hlow : bits s.remainder (w - 1) 0 = N := by
      rw [bits_low one_lt_w.le, h.remainder, h0, divReg_zero hN, Nat.mod_eq_of_lt hN]
    have hkpos : 0 < s.shift := s.shift_pos hpos
    have hstep : (s.divStep conf).state = .sBusy ∧ (s.divStep conf).isMul = false ∧
        (s.divStep conf).divisor = d ∧ (s.divStep conf).count = s.shift ∧
        (s.divStep conf).remainder = divReg w N d s.shift := by
      simp only [MulDiv.divStep, hcond, hlast, hlow, hless, hjump, Bool.not_true, Bool.and_false,
        Bool.false_eq_true, if_false, if_true, and_true]
      exact ⟨h.state, h.isMul, h.divisor⟩
    obtain ⟨h1, h2, h3, h4, h5⟩ := hstep
    exact ⟨⟨h1, h2, by omega, h3, h4 ▸ h5⟩, by omega, hneg⟩

/-- **The last step.** -/
theorem divStep_done (hc : s.count = w) :
    DivDone N d (s.divStep conf) ∧ (s.divStep conf).negOut = s.negOut := by
  have hw : (s.count == 0) = false := beq_false_of_ne (by rw [hc]; decide)
  have hE : s.divEOut = false := by rw [divEOut, hw, Bool.false_and, Bool.false_and]
  have hlast : (s.count == w) = true := beq_iff_eq.mpr hc
  have hshifted := h.shifted_eq hN hd
  have hval : divShift w d s.remainder = N % d * 2 ^ (w + 1) + quot d (w + 1) N := by
    rw [h.remainder, hc, divShift_divReg_last hN]
  rw [hval] at hshifted
  have hstep : s.divStep conf = { s with
      state := if s.isHi then .sMoveRem else if s.negOut then .sNegOutput else .sDone
      count := (s.count + 1) % 2 ^ log2Up (w + 1)
      remainder := N % d * 2 ^ (w + 1) + quot d (w + 1) N } := by
    simp only [MulDiv.divStep, hE, hlast, hw, Bool.and_false, Bool.false_and, Bool.false_eq_true,
      if_false, if_true]
    rw [hshifted, hc]
  rw [hstep]
  exact ⟨⟨rfl, rfl⟩, rfl⟩

/-- The loop ends, and forgets the sign exactly when the divisor is zero. -/
theorem reaches :
    ∃ t, Reaches conf s t ∧ DivDone N d t ∧ t.req = s.req ∧ t.isHi = s.isHi ∧
      t.negOut = (s.negOut && !(s.count == 0 && d == 0)) := by
  -- Induction on a bound on the steps left; an early exit takes more than one of them away.
  obtain ⟨left, hleft⟩ : ∃ left, w ≤ s.count + left := ⟨w, Nat.le_add_left _ _⟩
  induction left generalizing s with
  | zero =>
    have hc : s.count = w := le_antisymm h.count_le hleft
    obtain ⟨hdone, hneg⟩ := h.divStep_done hN hd hc
    have hne : (s.count == 0) = false := beq_false_of_ne (by rw [hc]; decide)
    refine ⟨s.divStep conf, .one h.active h.advance_eq, hdone, divStep_req .., divStep_isHi .., ?_⟩
    rw [hneg, hne, Bool.false_and, Bool.not_false, Bool.and_true]
  | succ left ih =>
    rcases Nat.lt_or_ge s.count w with hc | hc
    · obtain ⟨hloop, hcount, hneg⟩ := @divStep conf _ _ _ h hN hd hc
      obtain ⟨t, ht, hdone, hreq, hhi, hneg'⟩ := ih hloop (by omega)
      have hne : ((s.divStep conf).count == 0) = false := beq_false_of_ne (by omega)
      refine ⟨t, .step h.active (h.advance_eq ▸ ht), hdone, hreq.trans (divStep_req ..),
        hhi.trans (divStep_isHi ..), ?_⟩
      rw [hneg', hne, Bool.false_and, Bool.not_false, Bool.and_true, hneg]
    · have hc' : s.count = w := le_antisymm h.count_le hc
      exact ih h (by omega)

end

end DivLoop

/-- From the end of the loop to the response: the requested half, negated if asked for. -/
theorem DivDone.reaches {N d : ℕ} {s : MulDiv} (h : DivDone N d s) (hN : N < 2 ^ w) :
    ∃ t, Reaches conf s t ∧ t.respValid ∧ t.req = s.req ∧ t.remainder % 2 ^ w =
      wrap w (if s.negOut then -(if s.isHi then N % d else quot d (w + 1) N : ℕ)
        else (if s.isHi then N % d else quot d (w + 1) N : ℕ)) := by
  have hquot : quot d (w + 1) N < 2 ^ (w + 1) := by
    rw [quot]
    split
    · exact Nat.sub_lt (Nat.two_pow_pos _) one_pos
    · exact (Nat.div_le_self N d).trans_lt (hN.trans (Nat.pow_lt_pow_succ Nat.one_lt_two))
  -- The state in which the requested half is in the low bits.
  obtain ⟨t, ht, htstate, htreq, htneg, htlow⟩ : ∃ t, Reaches conf s t ∧
      t.state = (if s.negOut then .sNegOutput else .sDone) ∧ t.req = s.req ∧ t.negOut = s.negOut ∧
      t.remainder % 2 ^ w = (if s.isHi then N % d else quot d (w + 1) N) % 2 ^ w := by
    rcases hhi : s.isHi with _ | _
    · have hstate := h.state
      rw [hhi] at hstate
      refine ⟨s, .refl s, hstate, rfl, rfl, ?_⟩
      rw [h.remainder, pow_succ, Nat.mul_comm (2 ^ w), ← Nat.mul_assoc, Nat.mul_add_mod_self_right]
      rfl
    · have hstate : s.state = .sMoveRem := by rw [h.state, hhi]; rfl
      have hadv : s.advance conf = s.moveRem := by rw [advance, hstate]
      refine ⟨s.moveRem, .one (by simp [Active, hstate]) hadv, rfl, rfl, rfl, ?_⟩
      have hslice : s.moveRem.remainder = N % d % 2 ^ w := by
        simp only [moveRem, bits, show 2 * w + 1 - (w + 1) = w by omega]
        have hdiv : s.remainder / 2 ^ (w + 1) = N % d := by rw [h.remainder]; exact cat_div hquot
        rw [hdiv]
      rw [hslice, Nat.mod_mod, if_pos rfl]
  set X := if s.isHi then N % d else quot d (w + 1) N
  rcases hneg : s.negOut with _ | _
  · rw [hneg] at htstate
    refine ⟨t, ht, by rw [respValid, htstate]; rfl, htreq, ?_⟩
    rw [htlow, if_neg (by simp), wrap_natCast]
  · rw [hneg, if_pos rfl] at htstate
    have hadv : t.advance conf = t.negOutput := by rw [advance, htstate]
    refine ⟨t.negOutput, ht.trans (.one (by simp [Active, htstate]) hadv), rfl, htreq, ?_⟩
    have hmod : ((X % 2 ^ w : ℕ) : ℤ) ≡ X [ZMOD 2 ^ w] := wrap_natCast w X ▸ wrap_modEq w X
    simp only [negOutput, negatedRemainder, bits_low one_lt_w.le, htlow, if_true]
    rw [Nat.mod_eq_of_lt (wrap_lt _ _), wrap_congr hmod.neg]

/-! ### From the request to the loop -/

/-- A divide request enters the loop with the magnitudes of its operands. -/
theorem accept_divLoop (s : MulDiv) {r : MultiplierReq} (hmul : (conf.decode r.fn).1 = false)
    (hsign : (conf.decode r.fn).2.2.1 = (conf.decode r.fn).2.2.2) :
    ∃ t, Reaches conf (accept conf s r) t ∧
      DivLoop (r.lhs conf).natAbs (r.rhs conf).natAbs t ∧ t.count = 0 ∧ t.req = r ∧
      t.isHi = (conf.decode r.fn).2.1 ∧ t.negOut = (accept conf s r).negOut := by
  have hrem := accept_remainder conf s r
  have hdiv := accept_divisor conf s r
  have hstate := accept_state conf s r
  have hLlo : -2 ^ (w - 1) ≤ r.lhs conf := Dw.neg_le_operand ..
  have hLhi : r.lhs conf < 2 ^ w := Dw.operand_lt ..
  have hRlo : -2 ^ (w - 1) ≤ r.rhs conf := Dw.neg_le_operand ..
  have hRhi : r.rhs conf < 2 ^ w := Dw.operand_lt ..
  have hw := two_pow_w
  have hpos : (0 : ℤ) < 2 ^ (w - 1) := by positivity
  simp only [hmul, and_true] at hstate
  have hcount : (accept conf s r).count = 0 := rfl
  have hisMul : (accept conf s r).isMul = false := hmul
  have hreq : (accept conf s r).req = r := rfl
  have hhi : (accept conf s r).isHi = (conf.decode r.fn).2.1 := rfl
  generalize accept conf s r = a at *
  by_cases hneg : r.lhs conf < 0 ∨ r.rhs conf < 0
  · -- Some operand is negative, so both were read as signed and fit in `w` signed bits.
    rw [if_pos hneg] at hstate
    have hsigned : (conf.decode r.fn).2.2.1 = true := by
      by_contra hc
      have hf := Bool.eq_false_iff.mpr hc
      rcases hneg with h | h
      · rw [MultiplierReq.lhs, hf] at h
        exact absurd (Dw.toU_nonneg _ _) (not_le.mpr h)
      · rw [MultiplierReq.rhs, ← hsign, hf] at h
        exact absurd (Dw.toU_nonneg _ _) (not_le.mpr h)
    have hLhi' : r.lhs conf < 2 ^ (w - 1) := by
      rw [MultiplierReq.lhs, hsigned]
      exact (Dw.toS_lt _ _).trans_le (two_pow_width_pred_le _)
    have hRhi' : r.rhs conf < 2 ^ (w - 1) := by
      rw [MultiplierReq.rhs, ← hsign, hsigned]
      exact (Dw.toS_lt _ _).trans_le (two_pow_width_pred_le _)
    have hadv : a.advance conf = a.negInputs := by rw [advance, hstate]
    refine ⟨a.negInputs, .one (by simp [Active, hstate]) hadv,
      ⟨rfl, hisMul, by simp [negInputs, hcount], ?_, ?_⟩, hcount, hreq, hhi, rfl⟩
    · have hbit : a.divisor.testBit (w - 1) = decide (r.rhs conf < 0) := by
        rw [testBit_pred_eq_neg one_lt_w.le, hdiv, wrap_mod (Nat.le_succ w),
          signed_wrap one_lt_w.le hRlo hRhi']
      have hzero : bits a.remainder (2 * w) w = 0 := by
        rw [bits, hrem, Nat.div_eq_of_lt (wrap_lt _ _), Nat.zero_mod]
      have hsub : a.subtractor = wrap (w + 1) (-r.rhs conf) := by
        rw [subtractor, hzero, bits_zero_right, hdiv, Nat.mod_eq_of_lt (wrap_lt _ _),
          Nat.cast_zero, zero_sub, wrap_congr (wrap_modEq (w + 1) (r.rhs conf)).neg]
      have hout : a.negInputs.divisor = wrap (w + 1) ((r.rhs conf).natAbs : ℤ) := by
        simp only [negInputs, hbit, hisMul, Bool.or_false, decide_eq_true_eq]
        split
        · rw [hsub, Int.ofNat_natAbs_of_nonpos (by omega)]
        · rw [hdiv, Int.natAbs_of_nonneg (by omega)]
      have hlt : (r.rhs conf).natAbs < 2 ^ (w + 1) := by
        have h : ((r.rhs conf).natAbs : ℤ) < 2 ^ (w + 1) := by
          rw [pow_succ]
          omega
        exact_mod_cast h
      rw [hout, wrap_of_lt hlt]
    · have hbit : a.remainder.testBit (w - 1) = decide (r.lhs conf < 0) := by
        rw [testBit_pred_eq_neg one_lt_w.le, hrem, Nat.mod_eq_of_lt (wrap_lt _ _),
          signed_wrap one_lt_w.le hLlo hLhi']
      have hnr : a.negatedRemainder = wrap w (-r.lhs conf) := by
        rw [negatedRemainder, bits_low one_lt_w.le, hrem, Nat.mod_eq_of_lt (wrap_lt _ _),
          wrap_congr (wrap_modEq w (r.lhs conf)).neg]
      have hout : a.negInputs.remainder = wrap w ((r.lhs conf).natAbs : ℤ) := by
        simp only [negInputs, hbit, hisMul, Bool.or_false, decide_eq_true_eq]
        split
        · rw [hnr, Int.ofNat_natAbs_of_nonpos (by omega)]
        · rw [hrem, Int.natAbs_of_nonneg (by omega)]
      have hlt : (r.lhs conf).natAbs < 2 ^ w := by
        have h : ((r.lhs conf).natAbs : ℤ) < 2 ^ w := by omega
        exact_mod_cast h
      have hc : a.negInputs.count = 0 := hcount
      rw [hout, wrap_of_lt hlt, hc, divReg_zero hlt]
  · rw [if_neg hneg] at hstate
    obtain ⟨hL, hR⟩ := not_or.mp hneg
    obtain ⟨N, hNeq⟩ := Int.eq_ofNat_of_zero_le (not_lt.mp hL)
    obtain ⟨d, hdeq⟩ := Int.eq_ofNat_of_zero_le (not_lt.mp hR)
    rw [hNeq] at hrem hLhi ⊢
    rw [hdeq] at hdiv hRhi ⊢
    have hNlt : N < 2 ^ w := by exact_mod_cast hLhi
    have hdlt : d < 2 ^ (w + 1) := by
      have h : d < 2 ^ w := by exact_mod_cast hRhi
      exact h.trans (Nat.pow_lt_pow_succ Nat.one_lt_two)
    refine ⟨a, .refl a, ⟨hstate, hisMul, by omega, ?_, ?_⟩, hcount, hreq, hhi, rfl⟩
    · rw [hdiv, wrap_of_lt hdlt, Int.natAbs_natCast]
    · rw [hrem, wrap_of_lt hNlt, Int.natAbs_natCast, hcount, divReg_zero hNlt]

end MulDiv

/-! ### Signs -/

variable (x y : ℤ) (conf : MulDivConfig)

theorem natAbs_div_signs :
    (if decide (x < 0) != decide (y < 0) then -((x.natAbs / y.natAbs : ℕ) : ℤ)
      else (x.natAbs / y.natAbs : ℕ)) = x.tdiv y := by
  rw [Int.ofNat_tdiv]
  rcases Int.lt_or_le x 0 with hx | hx <;> rcases Int.lt_or_le y 0 with hy | hy
  · simp [hx, hy, Int.ofNat_natAbs_of_nonpos hx.le, Int.ofNat_natAbs_of_nonpos hy.le, Int.tdiv_neg,
      Int.neg_tdiv]
  · simp [hx, not_lt.mpr hy, Int.ofNat_natAbs_of_nonpos hx.le, Int.natAbs_of_nonneg hy,
      Int.neg_tdiv]
  · simp [not_lt.mpr hx, hy, Int.natAbs_of_nonneg hx, Int.ofNat_natAbs_of_nonpos hy.le,
      Int.tdiv_neg]
  · simp [not_lt.mpr hx, not_lt.mpr hy, Int.natAbs_of_nonneg hx, Int.natAbs_of_nonneg hy]

theorem natAbs_mod_sign :
    (if decide (x < 0) then -((x.natAbs % y.natAbs : ℕ) : ℤ) else (x.natAbs % y.natAbs : ℕ))
      = x.tmod y := by
  have hy : ((x.natAbs % y.natAbs : ℕ) : ℤ) = (x.natAbs : ℤ).tmod y := by
    rcases Int.lt_or_le y 0 with h | h
    · rw [Int.ofNat_tmod, Int.ofNat_natAbs_of_nonpos h.le, Int.tmod_neg]
    · rw [Int.ofNat_tmod, Int.natAbs_of_nonneg h]
  rw [hy]
  rcases Int.lt_or_le x 0 with hx | hx
  · rw [decide_eq_true hx, if_pos rfl, Int.ofNat_natAbs_of_nonpos hx.le, Int.neg_tmod, neg_neg]
  · rw [decide_eq_false (not_lt.mpr hx), if_neg (by simp), Int.natAbs_of_nonneg hx]

/-- The half the unit takes from the division of magnitudes, and the sign it gives it. -/
theorem half_modEq_unitDivRem (hi : Bool) (x y : ℤ) :
    (if ((!false && if hi then decide (x < 0) else decide (x < 0) != decide (y < 0)) &&
        !(0 == 0 && y.natAbs == 0)) then
      -((if hi then x.natAbs % y.natAbs else quot y.natAbs (w + 1) x.natAbs : ℕ) : ℤ)
      else (if hi then x.natAbs % y.natAbs else quot y.natAbs (w + 1) x.natAbs : ℕ))
    ≡ (if hi then (unitDivRem x y).2 else (unitDivRem x y).1) [ZMOD 2 ^ w] := by
  by_cases hy : y = 0
  · subst hy
    rcases hi with _ | _
    · -- `w + 1` ones, of which the result keeps `w`.
      refine Int.modEq_iff_dvd.mpr ⟨-2, ?_⟩
      simp [quot, unitDivRem, pow_succ]
      ring
    · simp [unitDivRem]
  · have hy' : (y.natAbs == 0) = false := beq_false_of_ne (Int.natAbs_ne_zero.mpr hy)
    have hq : quot y.natAbs (w + 1) x.natAbs = x.natAbs / y.natAbs :=
      if_neg (Int.natAbs_ne_zero.mpr hy)
    simp only [unitDivRem, hy', hy, hq, Bool.and_false, Bool.not_false, Bool.and_true,
      Bool.true_and, if_false]
    rcases hi with _ | _
    · simp only [Bool.false_eq_true, if_false, natAbs_div_signs]
      rfl
    · simp only [if_true, natAbs_mod_sign]
      rfl

/-! ### The response -/

/-- The divide instructions. -/
def MultiplierReq.IsDivInstr (r : MultiplierReq) : Prop :=
  r.fn = .div ∨ r.fn = .rem ∨ r.fn = .divu ∨ r.fn = .remu

instance (r : MultiplierReq) : Decidable r.IsDivInstr :=
  inferInstanceAs (Decidable (_ ∨ _))

/-- The result the unit delivers for a divide request. -/
def unitResult (conf : MulDivConfig) (r : MultiplierReq) : ℕ :=
  r.dw.result (if (conf.decode r.fn).2.1 then (unitDivRem (r.lhs conf) (r.rhs conf)).2
    else (unitDivRem (r.lhs conf) (r.rhs conf)).1)

/-- Every divide request is answered, with `unitResult`. -/
theorem div_responds (s : MulDiv) (io : ℕ → MulDivIn) (hfire : s.reqFire (io 0))
    (hkill : ∀ n, (io (n + 1)).kill = false) (hr : (io 0).req.IsDivInstr) :
    ∃ n, MulDiv.Responds conf s io n (unitResult conf (io 0).req) := by
  have hmul : (conf.decode (io 0).req.fn).1 = false := by
    rcases hr with h | h | h | h <;> rw [h] <;> rfl
  have hsign : (conf.decode (io 0).req.fn).2.2.1 = (conf.decode (io 0).req.fn).2.2.2 := by
    rcases hr with h | h | h | h <;> rw [h] <;> rfl
  obtain ⟨t, ht, hloop, hcount, hreq, hisHi, hneg⟩ := MulDiv.accept_divLoop s hmul hsign
  have hLlo : -2 ^ (w - 1) ≤ (io 0).req.lhs conf := Dw.neg_le_operand ..
  have hLhi : (io 0).req.lhs conf < 2 ^ w := Dw.operand_lt ..
  have hRlo : -2 ^ (w - 1) ≤ (io 0).req.rhs conf := Dw.neg_le_operand ..
  have hRhi : (io 0).req.rhs conf < 2 ^ w := Dw.operand_lt ..
  have hw := two_pow_w
  have hN : ((io 0).req.lhs conf).natAbs < 2 ^ w := by
    have h : ((((io 0).req.lhs conf).natAbs : ℕ) : ℤ) < 2 ^ w := by omega
    exact_mod_cast h
  have hd : ((io 0).req.rhs conf).natAbs < 2 ^ w := by
    have h : ((((io 0).req.rhs conf).natAbs : ℕ) : ℤ) < 2 ^ w := by omega
    exact_mod_cast h
  obtain ⟨u, hu, hdone, hureq, huhi, huneg⟩ := hloop.reaches hN hd
  obtain ⟨v, hv, hvalid, hvreq, hlow⟩ := hdone.reaches hN
  have hdata : v.respData = unitResult conf (io 0).req := by
    rw [hcount, hneg, MulDiv.accept_negOut, hmul] at huneg
    rw [huneg, huhi, hisHi] at hlow
    rw [unitResult, ← hreq, ← hureq, ← hvreq]
    refine MulDiv.respData_of_low (hlow.trans (wrap_congr ?_))
    rw [hvreq, hureq, hreq]
    exact half_modEq_unitDivRem ..
  rw [← hdata]
  exact MulDiv.responds_of_reaches hfire hkill ((ht.trans hu).trans hv) hvalid

/-! ### Comparison with the instruction set -/

/-- The signed remainder of a negative dividend by zero, other than the dividend that is its own
negation. -/
def MultiplierReq.RemByZero (r : MultiplierReq) : Prop :=
  r.fn = .rem ∧ r.dw.toS r.in2 = 0 ∧ r.dw.toS r.in1 < 0 ∧
    r.dw.toS r.in1 ≠ -2 ^ (r.dw.width - 1)

theorem two_pow_width (dw : Dw) : (2 : ℤ) ^ dw.width = 2 * 2 ^ (dw.width - 1) := by
  rw [← pow_succ', Nat.sub_add_cancel dw.width_pos]

theorem unitDivRem_fst_modEq {dw : Dw} :
    (unitDivRem x y).1 ≡ (riscvDivRem dw x y).1 [ZMOD 2 ^ dw.width] := by
  rw [unitDivRem, riscvDivRem]
  split
  · rfl
  · split
    · rename_i h
      obtain ⟨rfl, rfl⟩ := h
      refine Int.modEq_iff_dvd.mpr ⟨-1, ?_⟩
      simp [Int.tdiv_neg, two_pow_width]
      ring
    · rfl

/-- The remainder is right, unless the divisor is zero and the sign matters. -/
theorem unitDivRem_snd_modEq_iff {dw : Dw} {x : ℤ} (y : ℤ) (hx : -2 ^ (dw.width - 1) ≤ x) :
    (unitDivRem x y).2 ≡ (riscvDivRem dw x y).2 [ZMOD 2 ^ dw.width] ↔
      ¬(y = 0 ∧ x < 0 ∧ x ≠ -2 ^ (dw.width - 1)) := by
  have hpos : (0 : ℤ) < 2 ^ (dw.width - 1) := by positivity
  have h2 := two_pow_width dw
  rw [unitDivRem, riscvDivRem]
  by_cases hy : y = 0
  · simp only [hy, if_true, true_and]
    rcases Int.lt_or_le x 0 with h | h
    · rw [abs_of_neg h, Int.modEq_iff_dvd, h2]
      simp only [h, true_and, not_not]
      constructor
      · rintro ⟨k, hk⟩
        -- `x = k * 2 ^ (width - 1)` with `-1 ≤ k < 0`.
        have hxk : x = 2 ^ (dw.width - 1) * k := by linarith
        have hk0 : k < 0 := by
          by_contra hc
          have := mul_nonneg hpos.le (not_lt.mp hc)
          omega
        have hk1 : -1 ≤ k := by
          by_contra hc
          have := mul_le_mul_of_nonneg_left (show k ≤ -2 by omega) hpos.le
          omega
        rw [hxk, show k = -1 by omega]
        ring
      · intro h'
        exact ⟨-1, by rw [h']; ring⟩
    · rw [abs_of_nonneg h]
      simp only [not_lt.mpr h, false_and, not_false_iff, iff_true]
      rfl
  · simp only [hy, if_false, false_and, not_false_iff, iff_true]
    split
    · rename_i h
      rw [h.2, Int.tmod_neg, Int.tmod_one]
    · rfl

theorem unitDivRem_eq_riscvDivRemU {x : ℤ} (y : ℤ) (hx : 0 ≤ x) :
    unitDivRem x y = riscvDivRemU x y := by
  rw [unitDivRem, riscvDivRemU, abs_of_nonneg hx]

theorem unitResult_eq_riscvResult_iff {r : MultiplierReq}
    (hr : r.IsDivInstr) : unitResult conf r = riscvResult r ↔ ¬r.RemByZero := by
  obtain ⟨fn, dw, in1, in2, tag⟩ := r
  rcases hr with rfl | rfl | rfl | rfl
  · refine iff_of_true ?_ fun h => MulDivFn.noConfusion h.1
    exact Dw.result_congr (unitDivRem_fst_modEq (dw.toS in1) (dw.toS in2))
  · refine Dw.result_eq_iff.trans ?_
    refine (unitDivRem_snd_modEq_iff (dw.toS in2) (dw.neg_le_toS in1)).trans (not_congr ?_)
    exact (and_iff_right rfl).symm
  · refine iff_of_true ?_ fun h => MulDivFn.noConfusion h.1
    exact congrArg (fun p => dw.result p.1) (unitDivRem_eq_riscvDivRemU _ (dw.toU_nonneg in1))
  · refine iff_of_true ?_ fun h => MulDivFn.noConfusion h.1
    exact congrArg (fun p => dw.result p.2) (unitDivRem_eq_riscvDivRemU _ (dw.toU_nonneg in1))

/-- **Division.** An accepted divide request that is not killed is answered with its architectural
result if and only if it is not the remainder by zero of a negative dividend other than the most
negative one. -/
theorem div_responds_riscv_iff (conf : MulDivConfig) (s : MulDiv) (io : ℕ → MulDivIn)
    (hfire : s.reqFire (io 0)) (hkill : ∀ n, (io (n + 1)).kill = false)
    (hr : (io 0).req.IsDivInstr) :
    (∃ n, MulDiv.Responds conf s io n (riscvResult (io 0).req)) ↔ ¬(io 0).req.RemByZero := by
  obtain ⟨n, hn⟩ := div_responds conf s io hfire hkill hr
  rw [← unitResult_eq_riscvResult_iff conf hr]
  constructor
  · rintro ⟨n', hn'⟩
    exact (hn.unique (hn.pos hfire) (hn'.pos hfire) hn').2
  · intro h
    exact ⟨n, h ▸ hn⟩

/-- `REMW` of `-5` and `3`. -/
theorem div_responds_riscv_iff_remw :
    (∃ n, MulDiv.Responds ⟨1, true, false, false, by decide⟩ .reset
      (.hold ⟨.rem, .dw32, 2 ^ 32 - 5, 3, 0⟩) n (2 ^ 64 - 2)) ↔
      ¬MultiplierReq.RemByZero ⟨.rem, .dw32, 2 ^ 32 - 5, 3, 0⟩ :=
  div_responds_riscv_iff ⟨1, true, false, false, by decide⟩ .reset
    (.hold ⟨.rem, .dw32, 2 ^ 32 - 5, 3, 0⟩) rfl (fun _ => rfl) (by decide)

/-- `REM` of `-5` and `0`: the unit answers `5`, the instruction set asks for `-5`. -/
theorem rem_neg_five_zero :
    (∃ n, MulDiv.Responds ⟨1, true, false, false, by decide⟩ .reset
      (.hold ⟨.rem, .dw64, 2 ^ 64 - 5, 0, 0⟩) n 5) ∧
    riscvResult ⟨.rem, .dw64, 2 ^ 64 - 5, 0, 0⟩ = 2 ^ 64 - 5 ∧
    ¬∃ n, MulDiv.Responds ⟨1, true, false, false, by decide⟩ .reset
      (.hold ⟨.rem, .dw64, 2 ^ 64 - 5, 0, 0⟩) n
      (riscvResult ⟨.rem, .dw64, 2 ^ 64 - 5, 0, 0⟩) := by
  obtain ⟨n, hn⟩ := div_responds ⟨1, true, false, false, by decide⟩ .reset
    (.hold ⟨.rem, .dw64, 2 ^ 64 - 5, 0, 0⟩) rfl (fun _ => rfl) (by decide)
  refine ⟨⟨n, hn⟩, rfl, ?_⟩
  rintro ⟨n', hn'⟩
  have h : (5 : ℕ) = 2 ^ 64 - 5 := (hn.unique (hn.pos rfl) (hn'.pos rfl) hn').2
  exact absurd h (by decide)

end RiscvSoc
