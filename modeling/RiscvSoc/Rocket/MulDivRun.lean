import RiscvSoc.Rocket.MulDiv

/-!
# Runs of the multiplier and divider

A request, once accepted, is worked off by the datapath alone: until the unit reaches `s_done`
neither `io.req` nor `io.resp.ready` has any effect, and only `io.kill` could stop it. `Reaches`
is that datapath-only progress, and `responds_of_reaches` turns it into a statement about the
clocked unit under any input stream that does not kill the request.

The architectural results live here too: `riscvResult` is the value the instruction set asks for,
written over the integers and independent of the unit.
-/

namespace RiscvSoc

open Bits

namespace MulDiv

variable (conf : MulDivConfig)

/-! ### Datapath progress -/

/-- The unit holds a request it has not answered yet. -/
def Active (s : MulDiv) : Prop := s.state ≠ .sReady ∧ s.state ≠ .sDone

/-- `t` follows from `s` by datapath steps through active states only. -/
inductive Reaches : MulDiv → MulDiv → Prop
  | refl (s : MulDiv) : Reaches s s
  | step {s t : MulDiv} : Active s → Reaches (s.advance conf) t → Reaches s t

variable {conf}

theorem Reaches.trans {s t u : MulDiv} (h : Reaches conf s t) (h' : Reaches conf t u) :
    Reaches conf s u := by
  induction h with
  | refl s => exact h'
  | step ha _ ih => exact .step ha (ih h')

theorem Reaches.one {s t : MulDiv} (ha : Active s) (h : s.advance conf = t) :
    Reaches conf s t := .step ha (h ▸ .refl _)

variable {s : MulDiv} {io : ℕ → MulDivIn}

/-- An active unit that is not killed only runs its datapath. -/
theorem next_of_active {io : MulDivIn} (ha : Active s) (hk : io.kill = false) :
    s.next conf io = s.advance conf := by
  have h1 : s.respFire io = false := by
    rw [respFire, respValid, beq_false_of_ne ha.2, Bool.false_and]
  have h2 : s.reqFire io = false := by rw [reqFire, beq_false_of_ne ha.1, Bool.false_and]
  simp [next, h1, h2, hk]

theorem next_of_reqFire {io : MulDivIn} (h : s.reqFire io) :
    s.next conf io = accept conf s io.req := by
  simp only [next, h, if_true]
  rfl

theorem run_succ' (s : MulDiv) (io : ℕ → MulDivIn) (n : ℕ) :
    s.run conf io (n + 1) = (s.next conf (io 0)).run conf (fun m => io (m + 1)) n := by
  induction n with
  | zero => rfl
  | succ n ih =>
    rw [run, ih, run]

/-- Datapath progress to a response is progress of the clocked unit. -/
theorem exists_run_of_reaches {s t : MulDiv} (h : Reaches conf s t) (ht : t.respValid)
    (hk : ∀ n, (io n).kill = false) :
    ∃ n, s.run conf io n = t ∧ ∀ m < n, ¬(s.run conf io m).respValid := by
  induction h generalizing io with
  | refl s => exact ⟨0, rfl, fun m hm => absurd hm (Nat.not_lt_zero m)⟩
  | @step s t ha _ ih =>
    obtain ⟨n, hn, hfirst⟩ := ih ht fun m => hk (m + 1)
    refine ⟨n + 1, by rw [run_succ', next_of_active ha (hk 0), hn], fun m hm => ?_⟩
    cases m with
    | zero => simpa [run, respValid] using ha.2
    | succ m =>
      rw [run_succ', next_of_active ha (hk 0)]
      exact hfirst m (Nat.lt_of_succ_lt_succ hm)

/-- A request accepted in cycle `0` and never killed is answered by the state its datapath
reaches. -/
theorem responds_of_reaches {s t : MulDiv} (hfire : s.reqFire (io 0))
    (hk : ∀ n, (io (n + 1)).kill = false) (h : Reaches conf (accept conf s (io 0).req) t)
    (ht : t.respValid) : ∃ n, Responds conf s io n t.respData := by
  obtain ⟨n, hn, hfirst⟩ := exists_run_of_reaches h ht hk
  have hrun : ∀ m, s.run conf io (m + 1)
      = (accept conf s (io 0).req).run conf (fun m => io (m + 1)) m := fun m => by
    rw [run_succ', next_of_reqFire hfire]
  refine ⟨n + 1, by rw [hrun, hn]; exact ht, fun m hm0 hm => ?_, by rw [hrun, hn]⟩
  obtain ⟨m, rfl⟩ : ∃ m', m = m' + 1 := ⟨m - 1, by omega⟩
  rw [hrun]
  exact hfirst m (Nat.lt_of_succ_lt_succ hm)

theorem Responds.pos {n d : ℕ} (h : Responds conf s io n d) (hfire : s.reqFire (io 0)) : 0 < n := by
  rcases Nat.eq_zero_or_pos n with rfl | hn
  · have hready : s.state = .sReady := beq_iff_eq.mp (Bool.and_eq_true_iff.mp hfire).1
    have hvalid : s.respValid := h.valid
    rw [respValid, hready] at hvalid
    exact absurd hvalid (by decide)
  · exact hn

/-- A unit answers once: the cycle and the data are determined. -/
theorem Responds.unique {n n' d d' : ℕ} (hn : 0 < n) (hn' : 0 < n') (h : Responds conf s io n d)
    (h' : Responds conf s io n' d') : n = n' ∧ d = d' := by
  have heq : n = n' := by
    rcases Nat.lt_trichotomy n n' with hlt | heq | hlt
    · exact absurd h.valid (h'.first n hn hlt)
    · exact heq
    · exact absurd h'.valid (h.first n' hn' hlt)
  subst heq
  exact ⟨rfl, h.data_eq.symm.trans h'.data_eq⟩

/-- The unit out of reset. -/
def reset : MulDiv := ⟨.sReady, ⟨.div, .dw32, 0, 0, 0⟩, 0, false, false, false, 0, 0⟩

end MulDiv

/-- A request held on the inputs, never killed. -/
def MulDivIn.hold (r : MultiplierReq) : ℕ → MulDivIn := fun _ => ⟨true, r, false, true⟩

/-! ### What the instruction set asks for -/

/-- The number of bits an operation works on. -/
def Dw.width : Dw → ℕ
  | .dw32 => w / 2
  | .dw64 => w

/-- The signed operand of an operation of width `dw`. -/
def Dw.toS (dw : Dw) (x : ℕ) : ℤ := signed dw.width (x % 2 ^ dw.width)

/-- The unsigned operand of an operation of width `dw`. -/
def Dw.toU (dw : Dw) (x : ℕ) : ℤ := (x % 2 ^ dw.width : ℕ)

/-- A result cut to the operation's width and sign-extended to a register. -/
def Dw.result (dw : Dw) (z : ℤ) : ℕ := wrap w (signed dw.width (wrap dw.width z))

/-- The quotient and remainder of a signed division: truncating, all ones and the dividend on a
zero divisor, the dividend and zero on overflow. -/
def riscvDivRem (dw : Dw) (x y : ℤ) : ℤ × ℤ :=
  if y = 0 then (-1, x)
  else if x = -2 ^ (dw.width - 1) ∧ y = -1 then (x, 0)
  else (x.tdiv y, x.tmod y)

/-- The same for an unsigned division, where there is no overflow. -/
def riscvDivRemU (x y : ℤ) : ℤ × ℤ := if y = 0 then (-1, x) else (x.tdiv y, x.tmod y)

/-- The architectural result of a request. -/
def riscvResult (r : MultiplierReq) : ℕ :=
  let xs := r.dw.toS r.in1
  let ys := r.dw.toS r.in2
  let xu := r.dw.toU r.in1
  let yu := r.dw.toU r.in2
  r.dw.result (match r.fn with
    | .div => (riscvDivRem r.dw xs ys).1
    | .rem => (riscvDivRem r.dw xs ys).2
    | .divu => (riscvDivRemU xu yu).1
    | .remu => (riscvDivRemU xu yu).2
    | .mul => xs * ys
    | .mulh => xs * ys / 2 ^ w
    | .mulhu => xu * yu / 2 ^ w
    | .mulhsu => xs * yu / 2 ^ w)

/-! ### Operands -/

variable (dw : Dw) (x : ℕ) (isSigned : Bool) {z : ℤ}

theorem Dw.width_pos : 0 < dw.width := by cases dw <;> decide

theorem Dw.width_le : dw.width ≤ w := by cases dw <;> decide

/-- The integer an operand stands for. -/
def Dw.operand (dw : Dw) (x : ℕ) (isSigned : Bool) : ℤ :=
  if isSigned then dw.toS x else dw.toU x

theorem Dw.operand_modEq :
    dw.operand x isSigned ≡ dw.toS x [ZMOD 2 ^ dw.width] := by
  rw [Dw.operand]
  split
  · rfl
  · exact (signed_modEq _ _).symm

theorem Dw.toU_nonneg : 0 ≤ dw.toU x := Int.natCast_nonneg _

theorem Dw.toU_lt : dw.toU x < 2 ^ dw.width := by
  rw [Dw.toU]
  exact_mod_cast Nat.mod_lt x (Nat.two_pow_pos dw.width)

theorem Dw.neg_le_toS : -2 ^ (dw.width - 1) ≤ dw.toS x :=
  neg_le_signed dw.width_pos _

theorem Dw.toS_lt : dw.toS x < 2 ^ (dw.width - 1) :=
  signed_lt (Nat.mod_lt _ (Nat.two_pow_pos _))

theorem two_pow_width_pred_le : (2 : ℤ) ^ (dw.width - 1) ≤ 2 ^ (w - 1) :=
  pow_le_pow_right₀ one_le_two (Nat.sub_le_sub_right dw.width_le 1)

theorem two_pow_w : (2 : ℤ) ^ w = 2 * 2 ^ (w - 1) := by
  rw [← pow_succ', Nat.sub_add_cancel one_lt_w.le]

theorem Dw.neg_le_operand :
    -2 ^ (w - 1) ≤ dw.operand x isSigned := by
  rw [Dw.operand]
  split
  · exact (neg_le_neg (two_pow_width_pred_le dw)).trans (dw.neg_le_toS x)
  · exact (neg_nonpos.mpr (by positivity)).trans (Int.natCast_nonneg _)

theorem Dw.operand_lt : dw.operand x isSigned < 2 ^ w := by
  have hpos : (0 : ℤ) < 2 ^ (w - 1) := by positivity
  have h2 := two_pow_w
  rw [Dw.operand]
  split
  · have h := dw.toS_lt x
    have h' := two_pow_width_pred_le dw
    omega
  · exact (dw.toU_lt x).trans_le (pow_le_pow_right₀ one_le_two dw.width_le)

theorem testBit_pred {n : ℕ} (hn : 0 < n) (x : ℕ) :
    x.testBit (n - 1) = decide (2 ^ (n - 1) ≤ x % 2 ^ n) := by
  have h2 : 2 ^ n = 2 ^ (n - 1) * 2 := by rw [← pow_succ, Nat.sub_add_cancel hn]
  have hbit : x / 2 ^ (n - 1) % 2 = x % 2 ^ n / 2 ^ (n - 1) := by
    rw [h2, Nat.mod_mul_right_div_self]
  have hlt : x % 2 ^ n / 2 ^ (n - 1) < 2 := by rw [← hbit]; exact Nat.mod_lt _ two_pos
  rw [Nat.testBit_eq_decide_div_mod_eq, hbit, decide_eq_decide,
    ← Nat.div_pos_iff.trans (and_iff_right (Nat.two_pow_pos (n - 1)))]
  omega

theorem testBit_pred_eq_neg {n : ℕ} (hn : 0 < n) (x : ℕ) :
    x.testBit (n - 1) = decide (signed n (x % 2 ^ n) < 0) := by
  have hlt := Nat.mod_lt x (Nat.two_pow_pos n)
  rw [testBit_pred hn, decide_eq_decide]
  constructor
  · intro h
    rw [signed_of_ge h]
    have : ((x % 2 ^ n : ℕ) : ℤ) < 2 ^ n := by exact_mod_cast hlt
    omega
  · intro h
    by_contra hc
    rw [signed_of_lt (Nat.not_le.mp hc)] at h
    exact absurd (Int.natCast_nonneg _) (not_le.mpr h)

/-- Sign-extending an `n`-bit value to `m + n` bits fills the upper `m` with its sign. -/
theorem cat_sign {m n x : ℕ} (hx : x < 2 ^ n) :
    cat (if decide (signed n x < 0) then 2 ^ m - 1 else 0) n x = wrap (m + n) (signed n x) := by
  have hm := Nat.two_pow_pos m
  rcases Nat.lt_or_ge x (2 ^ (n - 1)) with h | h
  · have hlt : x < 2 ^ (m + n) := hx.trans_le (Nat.pow_le_pow_right two_pos (Nat.le_add_left n m))
    rw [signed_of_lt h, wrap_of_lt hlt, if_neg (by simp), cat, Nat.zero_mul, Nat.zero_add]
  · have hx' : (x : ℤ) < 2 ^ n := by exact_mod_cast hx
    have hfill : 2 ^ m - 1 = wrap m (-1) := by
      have h1 : ((2 ^ m - 1 : ℕ) : ℤ) ≡ -1 [ZMOD 2 ^ m] :=
        Int.modEq_iff_dvd.mpr ⟨-1, by push_cast [Nat.cast_sub hm]; ring⟩
      rw [← wrap_congr h1, wrap_of_lt (Nat.sub_lt hm one_pos)]
    rw [signed_of_ge h, if_pos (by simpa using hx'), hfill, cat_wrap hx]
    congr 1
    ring

theorem MulDiv.sext_sign :
    (MulDiv.sext dw x isSigned).2 = decide (dw.operand x isSigned < 0) := by
  cases isSigned
  · simpa [MulDiv.sext, Dw.operand] using dw.toU_nonneg x
  · cases dw
    · exact testBit_pred_eq_neg Dw.dw32.width_pos x
    · exact testBit_pred_eq_neg Dw.dw64.width_pos x

theorem MulDiv.sext_word64 :
    (MulDiv.sext .dw64 x isSigned).1 = x % 2 ^ w := by
  have hhi : bits x (w - 1) (w / 2) = x % 2 ^ w / 2 ^ (w / 2) := by
    rw [bits, show w - 1 + 1 - w / 2 = w / 2 from rfl, ← Nat.mod_mul_right_div_self,
      ← pow_add, show w / 2 + w / 2 = w from rfl]
  have hmod : bits x (w / 2 - 1) 0 = x % 2 ^ w % 2 ^ (w / 2) := by
    have hdvd : 2 ^ (w / 2) ∣ 2 ^ w := pow_dvd_pow 2 Dw.dw32.width_le
    rw [@bits_low (w / 2) Dw.dw32.width_pos, Nat.mod_mod_of_dvd x hdvd]
  rw [← cat_div_mod (x % 2 ^ w) (w / 2), ← hhi, ← hmod]
  rfl

theorem MulDiv.sext_word32 :
    (MulDiv.sext .dw32 x isSigned).1 =
      cat (if (MulDiv.sext .dw32 x isSigned).2 then 2 ^ (w / 2) - 1 else 0) (w / 2)
        (x % 2 ^ (w / 2)) := by
  rw [← @bits_low (w / 2) Dw.dw32.width_pos]
  rfl

/-- **Operand decoding.** The widened operand is the pattern of the integer it stands for. -/
theorem MulDiv.sext_word :
    (MulDiv.sext dw x isSigned).1 = wrap w (dw.operand x isSigned) := by
  cases dw
  · rw [MulDiv.sext_word32, MulDiv.sext_sign]
    have hlt := Nat.mod_lt x (Nat.two_pow_pos (w / 2))
    cases isSigned
    · have hlt' : x % 2 ^ (w / 2) < 2 ^ w :=
        hlt.trans_le (Nat.pow_le_pow_right two_pos Dw.dw32.width_le)
      have hpos : ¬Dw.dw32.operand x false < 0 := not_lt.mpr (Dw.dw32.toU_nonneg x)
      rw [decide_eq_false hpos, if_neg (by simp), cat, Nat.zero_mul, Nat.zero_add]
      exact (wrap_of_lt hlt').symm
    · exact @cat_sign (w / 2) (w / 2) _ hlt
  · rw [MulDiv.sext_word64]
    have hlt := Nat.mod_lt x (Nat.two_pow_pos w)
    cases isSigned
    · exact (wrap_of_lt hlt).symm
    · exact (wrap_signed hlt).symm

/-- The response holds the result, once the low bits of `remainder` do. -/
theorem MulDiv.respData_eq {s : MulDiv}
    (h : s.remainder % 2 ^ s.req.dw.width = wrap s.req.dw.width z) :
    s.respData = s.req.dw.result z := by
  rw [MulDiv.respData, Dw.result]
  cases hdw : s.req.dw <;> rw [hdw] at h <;> simp only [Dw.width] at h ⊢
  · rw [@testBit_pred_eq_neg (w / 2) Dw.dw32.width_pos, @bits_low (w / 2) Dw.dw32.width_pos, h]
    exact cat_sign (wrap_lt _ _)
  · rw [bits_low one_lt_w.le, h, wrap_signed (wrap_lt _ _)]

/-- A register that holds all of `z` answers with the result at any width. -/
theorem MulDiv.respData_of_low {s : MulDiv} (h : s.remainder % 2 ^ w = wrap w z) :
    s.respData = s.req.dw.result z := by
  refine MulDiv.respData_eq ?_
  rw [← Nat.mod_mod_of_dvd _ (pow_dvd_pow 2 s.req.dw.width_le), h, wrap_mod s.req.dw.width_le]

theorem Dw.result_congr {dw : Dw} {y z : ℤ} (h : y ≡ z [ZMOD 2 ^ dw.width]) :
    dw.result y = dw.result z := by
  rw [Dw.result, wrap_congr h, Dw.result]

/-- Results agree exactly when they agree on the operation's width. -/
theorem Dw.result_eq_iff {dw : Dw} {y z : ℤ} :
    dw.result y = dw.result z ↔ y ≡ z [ZMOD 2 ^ dw.width] := by
  refine ⟨fun h => ?_, Dw.result_congr⟩
  have hcut : ∀ x, dw.result x % 2 ^ dw.width = wrap dw.width x := fun x => by
    rw [Dw.result, wrap_mod dw.width_le, wrap_signed (wrap_lt _ _)]
  exact wrap_eq_iff.mp (by rw [← hcut, h, hcut])

/-! ### Accepting a request -/

/-- Both operands of the request, as the decoded signedness reads them. -/
def MultiplierReq.lhs (conf : MulDivConfig) (r : MultiplierReq) : ℤ :=
  r.dw.operand r.in1 (conf.decode r.fn).2.2.1

def MultiplierReq.rhs (conf : MulDivConfig) (r : MultiplierReq) : ℤ :=
  r.dw.operand r.in2 (conf.decode r.fn).2.2.2

/-- The sign bit in front of a `w`-bit operand makes it the `w + 1`-bit pattern. -/
theorem cat_neg_wrap (hlo : -2 ^ w ≤ z) (hhi : z < 2 ^ w) :
    cat (decide (z < 0)).toNat w (wrap w z) = wrap (w + 1) z := by
  have htop : (decide (z < 0)).toNat = wrap (w + 1) z / 2 ^ w := by
    rw [Nat.add_comm, wrap_div]
    rcases Int.lt_or_le z 0 with h | h
    · have hdiv : z / 2 ^ w = -1 :=
        Int.ediv_eq_neg_one_of_neg_of_le h (by linarith)
      rw [decide_eq_true h, hdiv]
      rfl
    · rw [decide_eq_false (not_lt.mpr h), Int.ediv_eq_zero_of_lt h hhi]
      rfl
  rw [htop, ← wrap_mod (Nat.le_succ w), cat_div_mod]

namespace MulDiv

variable (conf : MulDivConfig) (s : MulDiv) (r : MultiplierReq)

theorem accept_remainder :
    (accept conf s r).remainder = wrap w (r.lhs conf) := sext_word ..

theorem accept_divisor :
    (accept conf s r).divisor = wrap (w + 1) (r.rhs conf) := by
  have h := cat_neg_wrap ((neg_le_neg (pow_le_pow_right₀ one_le_two (Nat.sub_le w 1))).trans
    (Dw.neg_le_operand r.dw r.in2 (conf.decode r.fn).2.2.2)) (Dw.operand_lt ..)
  rw [← sext_word, ← sext_sign] at h
  exact h

theorem accept_state :
    (accept conf s r).state =
      if r.lhs conf < 0 ∨ r.rhs conf < 0 ∧ (conf.decode r.fn).1 = false then .sNegInputs
      else .sBusy := by
  have h : (accept conf s r).state = if (sext r.dw r.in1 (conf.decode r.fn).2.2.1).2 ||
      (sext r.dw r.in2 (conf.decode r.fn).2.2.2).2 && !(conf.decode r.fn).1 then .sNegInputs
      else .sBusy := rfl
  rw [h, sext_sign, sext_sign]
  refine if_congr ?_ rfl rfl
  simp only [MultiplierReq.lhs, MultiplierReq.rhs, Bool.or_eq_true, Bool.and_eq_true,
    decide_eq_true_eq, Bool.not_eq_true']

theorem accept_negOut :
    (accept conf s r).negOut = (!(conf.decode r.fn).1 &&
      (if (conf.decode r.fn).2.1 then decide (r.lhs conf < 0)
        else decide (r.lhs conf < 0) != decide (r.rhs conf < 0))) := by
  rw [MultiplierReq.lhs, MultiplierReq.rhs, ← sext_sign, ← sext_sign]
  rfl

end MulDiv

end RiscvSoc
