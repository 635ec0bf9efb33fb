import RiscvSoc.Hwacha.Issue
import RiscvSoc.Hwacha.IssueOnce

/-!
# Where the vector registers are

Every bank holds the registers of every eighth microthread: those of microthreads 0 to 7, one of
them in each bank, then those of 8 to 15 and so on. First come the x registers of all these rows, x0
not among them, then the f registers. `vsetcfg` computes from the numbers of registers how many rows
there are (`ut_per_bank`) and where the f registers start (`xf_split`), and `IssueTVEC` the number
of registers of a row (`xstride`, `fstride`). The first row of an operation is that of the
microthread it starts at, and for each further row the sequencer adds the stride.

`xf_split` multiplies with `nxpr - 1`, for which there is no guard when no x register is asked for:
then it multiplies with 127, while the rows are counted without x registers.
-/

namespace RiscvSoc

namespace Hwacha

namespace Issue

namespace IssueTVEC

/-- `stride` of the sequencer, added to an id. -/
def seqStride (s : IssueTVEC) (float : Bool) : BitVec 8 :=
  if float then s.fstride.setWidth 8 else s.xstride.setWidth 8

end IssueTVEC

end Issue

/-- A register of the instruction set. -/
@[ext]
structure ArchReg where
  float : Bool
  num : BitVec 5
  deriving DecidableEq

/-- There are `nxpr` x registers, of which x0 needs no place, and `nfpr` f registers. -/
def ArchReg.Allocated (nxpr nfpr : ℕ) (r : ArchReg) : Prop :=
  if r.float then r.num.toNat < nfpr else 1 ≤ r.num.toNat ∧ r.num.toNat < nxpr

/-- A register in the strip number `steps` of an operation that is issued with inputs `i`. -/
structure RegUse where
  i : Issue.IssueIn
  steps : ℕ
  reg : ArchReg

namespace RegUse

variable (u : RegUse)

/-- The row of the strip. -/
def row : ℕ := (Issue.cnt u.i).toNat / 8 + u.steps

/-- The id that the sequencer sends to the banks. -/
def id (t : Issue.IssueTVEC) : BitVec 8 :=
  (· + t.seqStride u.reg.float)^[u.steps]
    (Issue.regId u.reg.float (t.regidFbase u.i) (t.regidXbase u.i) u.reg.num)

/-- The operation starts at a multiple of eight, the row has a microthread, the register is one of
those asked for. -/
structure Occurs (vlen nxpr nfpr : ℕ) : Prop where
  start : (Issue.cnt u.i).toNat % 8 = 0
  row : 8 * u.row < vlen
  reg : u.reg.Allocated nxpr nfpr

end RegUse

namespace Dispatch

variable {c : HwachaConfiguration} (x : BitVec 32 → DontCares) (s : Dispatch c) (i : DispatchIn)

/-- A `vsetcfg` that is not refused. -/
structure SetsConfig : Prop where
  cmd : i.cmd.isSome = true
  vsetcfg : decodeVcfg x i = true
  accepted : illegalCfg x i = false

/-- The issue stage after the command. -/
def setcfg (t : Issue.IssueTVEC) : Issue.IssueTVEC :=
  t.configure (.fromBits (s.vimmVlenBits i))

/-- For every vector length there can be, the registers are in the bank, and two of them are in the
same place only if they are the same register of the same row. -/
def Separate (t : Issue.IssueTVEC) : Prop :=
  ∀ vlen ≤ newMaxvl c i, ∀ u : RegUse, u.Occurs vlen (nxpr i).toNat (nfpr i).toNat →
    (u.id (s.setcfg i t)).toNat < c.nregPerBank ∧
      ∀ v : RegUse, v.Occurs vlen (nxpr i).toNat (nfpr i).toNat →
        u.id (s.setcfg i t) = v.id (s.setcfg i t) → u.row = v.row ∧ u.reg = v.reg

/-- The command asks for an x register, at least for x0, or for no f register. Otherwise there are
no rows, or the bank has all 256 places, or the place that `xf_split` names by mistake leaves room.
-/
def SplitOk (c : HwachaConfiguration) (i : DispatchIn) : Prop :=
  1 ≤ (nxpr i).toNat ∨ (nfpr i).toNat = 0 ∨ utPerBank c i = 0 ∨ c.nregPerBank = 256 ∨
    utPerBank c i % 2 = 1 ∧ utPerBank c i < 128 ∧
      128 + utPerBank c i * ((nfpr i).toNat - 1) ≤ c.nregPerBank

/-! ### The configuration -/

variable {x s i}

theorem SetsConfig.le (h : SetsConfig x i) : (nxpr i).toNat ≤ 32 ∧ (nfpr i).toNat ≤ 32 := by
  have haccepted := h.accepted
  rw [illegalCfg, h.cmd, h.vsetcfg, Bool.true_and, Bool.true_and, Bool.or_eq_false_iff,
    decide_eq_false_iff_not, decide_eq_false_iff_not] at haccepted
  omega

theorem utPerBank_eq (hprec : nextPrec c i = 0) :
    utPerBank c i = allocationUnits c (min ((nxpr i).toNat.pred + (nfpr i).toNat) 164) := by
  have hpacking : packing c i = 0 := by
    rw [packing, hprec]
    rfl
  rw [utPerBank, regsUsed, hpacking, Nat.shiftLeft_zero, Nat.shiftLeft_zero]

theorem utPerBank_mul_le (h : SetsConfig x i) (hprec : nextPrec c i = 0) :
    utPerBank c i * ((nxpr i).toNat.pred + (nfpr i).toNat) ≤ c.nregPerBank := by
  have hle := h.le
  have hpred := Nat.pred_le (nxpr i).toNat
  rw [utPerBank_eq hprec, Nat.min_eq_left (by omega), allocationUnits]
  split
  · rename_i hlt
    calc c.nregPerBank * ((nxpr i).toNat.pred + (nfpr i).toNat)
        ≤ c.nregPerBank * 1 := Nat.mul_le_mul_left _ (Nat.le_of_lt_succ hlt)
      _ = c.nregPerBank := Nat.mul_one _
  · exact Nat.div_mul_le_self ..

theorem fromBits_vimm (s : Dispatch c) (i : DispatchIn) :
    (Issue.HwachaImm1.fromBits (s.vimmVlenBits i)).nxregs = (nxpr i).setWidth 6 ∧
      (Issue.HwachaImm1.fromBits (s.vimmVlenBits i)).nfregs = (nfpr i).setWidth 6 ∧
      (Issue.HwachaImm1.fromBits (s.vimmVlenBits i)).prec = nextPrec c i ∧
      (Issue.HwachaImm1.fromBits (s.vimmVlenBits i)).xfSplit = xfSplit c i := by
  rw [Issue.HwachaImm1.fromBits, vimmVlenBits]
  refine ⟨?_, ?_, ?_, ?_⟩ <;>
    simp (disch := decide) only [BitVec.extractLsb'_append_eq_of_le,
      BitVec.extractLsb'_append_eq_of_add_le, Nat.reduceSub, BitVec.extractLsb'_eq_self]

theorem setcfg_eq (h : SetsConfig x i) (hprec : nextPrec c i = 0) (t : Issue.IssueTVEC) :
    (1 ≤ (nxpr i).toNat → (s.setcfg i t).xstride.toNat = (nxpr i).toNat - 1) ∧
      (s.setcfg i t).fstride.toNat = (nfpr i).toNat ∧
      (s.setcfg i t).xfSplit.toNat = utPerBank c i * (nxpr i - 1).toNat % 256 := by
  obtain ⟨hx, hf⟩ := h.le
  obtain ⟨hnx, hnf, hp, hxf⟩ := fromBits_vimm s i
  rw [setcfg, Issue.IssueTVEC.configure]
  dsimp only
  rw [hnx, hnf, hp, hxf, hprec, if_neg (by decide), if_neg (by decide)]
  refine ⟨fun hpos => ?_, ?_, ?_⟩
  · have hset : ((nxpr i).setWidth 6).toNat = (nxpr i).toNat := by
      rw [BitVec.toNat_setWidth]
      exact Nat.mod_eq_of_lt (by omega)
    rw [BitVec.toNat_sub_of_le (by rw [BitVec.le_def, hset]; exact hpos), hset]
    rfl
  · rw [BitVec.toNat_setWidth]
    exact Nat.mod_eq_of_lt (by omega)
  · rw [xfSplit, newMaxvl, BitVec.toNat_ofNat, Nat.shiftLeft_shiftRight]

end Dispatch

/-! ### Ids -/

theorem toNat_iterate_add (d a : BitVec 8) (k : ℕ) :
    ((· + d)^[k] a).toNat = (a.toNat + k * d.toNat) % 256 := by
  induction k with
  | zero =>
    rw [Nat.zero_mul, Nat.add_zero]
    exact (Nat.mod_eq_of_lt a.isLt).symm
  | succ k ih =>
    rw [Function.iterate_succ_apply', BitVec.toNat_add, ih, Nat.mod_add_mod, Nat.succ_mul,
      Nat.add_assoc]

namespace RegUse

variable {u v : RegUse} {t : Issue.IssueTVEC}

theorem id_float (hreg : u.reg.float = true) : (u.id t).toNat =
    (u.row * t.fstride.toNat + t.xfSplit.toNat + u.reg.num.toNat) % 256 := by
  have hwidth : (t.fstride.setWidth 8).toNat = t.fstride.toNat := by
    rw [BitVec.toNat_setWidth]
    exact Nat.mod_eq_of_lt (t.fstride.isLt.trans (by decide))
  rw [id, toNat_iterate_add, Issue.regId, hreg, if_pos rfl, Issue.IssueTVEC.seqStride, if_pos rfl,
    hwidth, Issue.IssueTVEC.regidFbase, BitVec.toNat_ofNat, Nat.mod_add_mod, row]
  congr 1
  rw [BitVec.toNat_ushiftRight, Nat.shiftRight_eq_div_pow, Nat.add_mul,
    show (2 : ℕ) ^ 3 = 8 from rfl]
  omega

theorem id_int (hreg : u.reg.float = false) : (u.id t).toNat =
    (u.row * t.xstride.toNat + (u.reg.num - 1).toNat) % 256 := by
  have hwidth : (t.xstride.setWidth 8).toNat = t.xstride.toNat := by
    rw [BitVec.toNat_setWidth]
    exact Nat.mod_eq_of_lt (t.xstride.isLt.trans (by decide))
  rw [id, toNat_iterate_add, Issue.regId, hreg, if_neg (by simp),
    Issue.IssueTVEC.seqStride, if_neg (by simp), hwidth, Issue.IssueTVEC.regidXbase,
    BitVec.toNat_ofNat, Nat.mod_add_mod, row]
  congr 1
  rw [BitVec.toNat_ushiftRight, Nat.shiftRight_eq_div_pow, Nat.add_mul,
    show (2 : ℕ) ^ 3 = 8 from rfl]
  omega

/-- Where a register should be, if there are `ut` rows. -/
def place (u : RegUse) (ut nxpr nfpr : ℕ) : ℕ :=
  if u.reg.float then ut * (nxpr - 1) + (u.row * nfpr + u.reg.num.toNat)
  else u.row * (nxpr - 1) + (u.reg.num.toNat - 1)

theorem row_lt {vlen nxpr nfpr ut : ℕ} (h : u.Occurs vlen nxpr nfpr) (hle : vlen ≤ ut <<< 3) :
    u.row < ut := by
  have hrow := h.row
  rw [Nat.shiftLeft_eq] at hle
  omega

end RegUse

/-! ### Places -/

/-- The place of element `r` of row `a`. -/
theorem rowMajor_lt {n m a r : ℕ} (ha : a < m) (hr : r < n) : a * n + r < m * n :=
  calc a * n + r < a * n + n := Nat.add_lt_add_left hr _
    _ = (a + 1) * n := (Nat.succ_mul a n).symm
    _ ≤ m * n := Nat.mul_le_mul_right n ha

theorem rowMajor_inj {n a b r q : ℕ} (hr : r < n) (hq : q < n) (h : a * n + r = b * n + q) :
    a = b ∧ r = q := by
  have hdiv := congrArg (· / n) h
  have hmod := congrArg (· % n) h
  have hn : 0 < n := Nat.zero_lt_of_lt hr
  simp only [Nat.mul_comm _ n, Nat.mul_add_div hn, Nat.mul_add_mod, Nat.div_eq_of_lt hr,
    Nat.div_eq_of_lt hq, Nat.mod_eq_of_lt hr, Nat.mod_eq_of_lt hq, Nat.add_zero] at hdiv hmod
  exact ⟨hdiv, hmod⟩

namespace RegUse

variable {u v : RegUse} {vlen ut nxpr nfpr : ℕ}

theorem place_lt (h : u.Occurs vlen nxpr nfpr) (hrow : u.row < ut) :
    u.place ut nxpr nfpr <
      if u.reg.float then ut * (nxpr - 1) + ut * nfpr else ut * (nxpr - 1) := by
  have hreg := h.reg
  rw [ArchReg.Allocated] at hreg
  rw [place]
  split
  · rename_i hfloat
    rw [if_pos hfloat] at hreg
    exact Nat.add_lt_add_left (rowMajor_lt hrow hreg) _
  · rename_i hint
    rw [if_neg hint] at hreg
    exact rowMajor_lt hrow (by omega)

theorem place_inj (hu : u.Occurs vlen nxpr nfpr) (hv : v.Occurs vlen nxpr nfpr)
    (hurow : u.row < ut) (hvrow : v.row < ut) (h : u.place ut nxpr nfpr = v.place ut nxpr nfpr) :
    u.row = v.row ∧ u.reg = v.reg := by
  have hureg := hu.reg
  have hvreg := hv.reg
  have hult := place_lt hu hurow
  have hvlt := place_lt hv hvrow
  rw [ArchReg.Allocated] at hureg hvreg
  rw [h] at hult
  have hfields (hfloat : u.reg.float = v.reg.float) (hnum : u.reg.num.toNat = v.reg.num.toNat) :
      u.reg = v.reg := ArchReg.ext hfloat (BitVec.eq_of_toNat_eq hnum)
  rw [place, place] at h
  rw [place] at hult hvlt
  cases huf : u.reg.float <;> cases hvf : v.reg.float <;>
    simp only [huf, hvf, Bool.false_eq_true, if_true, if_false] at h hureg hvreg hult hvlt
  · obtain ⟨hrow, hnum⟩ := rowMajor_inj (by omega) (by omega) h
    exact ⟨hrow, hfields (huf.trans hvf.symm) (by omega)⟩
  · omega
  · omega
  · obtain ⟨hrow, hnum⟩ := rowMajor_inj hureg hvreg (Nat.add_left_cancel h)
    exact ⟨hrow, hfields (huf.trans hvf.symm) hnum⟩

end RegUse

/-- What room the places leave that start at 127 times the number of rows. -/
theorem room_of_lt {ut nfpr nreg : ℕ} (hut : 1 ≤ ut) (hnfpr : 1 ≤ nfpr) (hlt : nreg < 256)
    (h : ∀ j < ut * nfpr, (j + ut * 127) % 256 < nreg) :
    ut % 2 = 1 ∧ ut < 128 ∧ 128 + ut * (nfpr - 1) ≤ nreg := by
  have hsplit : ut * nfpr = ut * (nfpr - 1) + ut := by
    rw [← Nat.mul_succ, Nat.succ_eq_add_one, Nat.sub_add_cancel hnfpr]
  rw [hsplit] at h
  -- an even number ends at 255, an odd one at 127
  have hlast := h (ut - 1) (by omega)
  have hodd : ut % 2 = 1 := by omega
  have hless : ut < 128 := by
    by_contra hge
    have hfull := h (ut - 129) (by omega)
    omega
  refine ⟨hodd, hless, ?_⟩
  by_contra hmore
  have hover := h (ut - 1 + (nreg - 127)) (by omega)
  omega

namespace Dispatch

variable {c : HwachaConfiguration} {x : BitVec 32 → DontCares} {s : Dispatch c} {i : DispatchIn}
  {t : Issue.IssueTVEC}

theorem toNat_nxpr_sub (hle : (nxpr i).toNat ≤ 32) :
    (nxpr i - 1).toNat = if 1 ≤ (nxpr i).toNat then (nxpr i).toNat - 1 else 127 := by
  have hone : (1 : BitVec 7).toNat = 1 := rfl
  rw [BitVec.toNat_sub, hone]
  split <;> omega

variable {u : RegUse} {vlen : ℕ}

theorem row_lt_utPerBank (hvlen : vlen ≤ newMaxvl c i)
    (hu : u.Occurs vlen (nxpr i).toNat (nfpr i).toNat) : u.row < utPerBank c i :=
  RegUse.row_lt hu hvlen

/-- A command that asks for x0 at least puts the registers where they should be. -/
theorem id_eq_place (h : SetsConfig x i) (hprec : nextPrec c i = 0) (hreg : c.nregPerBank ≤ 256)
    (hx : 1 ≤ (nxpr i).toNat) (hvlen : vlen ≤ newMaxvl c i)
    (hu : u.Occurs vlen (nxpr i).toNat (nfpr i).toNat) :
    (u.id (s.setcfg i t)).toNat = u.place (utPerBank c i) (nxpr i).toNat (nfpr i).toNat ∧
      u.place (utPerBank c i) (nxpr i).toNat (nfpr i).toNat < c.nregPerBank := by
  obtain ⟨hxs, hfs, hxf⟩ := setcfg_eq (s := s) h hprec t
  have hfits := utPerBank_mul_le h hprec
  have hlt := RegUse.place_lt hu (row_lt_utPerBank hvlen hu)
  rw [toNat_nxpr_sub h.le.1, if_pos hx] at hxf
  rw [Nat.pred_eq_sub_one, Nat.mul_add] at hfits
  have hplace : u.place (utPerBank c i) (nxpr i).toNat (nfpr i).toNat < c.nregPerBank := by
    split at hlt <;> omega
  refine ⟨?_, hplace⟩
  have hnum := hu.reg
  rw [ArchReg.Allocated] at hnum
  rw [RegUse.place] at hplace hlt ⊢
  cases hfloat : u.reg.float with
  | true =>
    simp only [hfloat, if_true] at hplace hlt hnum ⊢
    rw [RegUse.id_float hfloat, hfs, hxf]
    omega
  | false =>
    simp only [hfloat, Bool.false_eq_true, if_false] at hplace hlt hnum ⊢
    have hsub : (u.reg.num - 1).toNat = u.reg.num.toNat - 1 := by
      rw [BitVec.toNat_sub_of_le (by rw [BitVec.le_def]; exact hnum.1)]
      rfl
    rw [RegUse.id_int hfloat, hxs hx, hsub]
    exact Nat.mod_eq_of_lt (hplace.trans_le hreg)

theorem separate_of_nxpr (h : SetsConfig x i) (hprec : nextPrec c i = 0)
    (hreg : c.nregPerBank ≤ 256) (hx : 1 ≤ (nxpr i).toNat) : s.Separate i t := by
  intro vlen hvlen u hu
  obtain ⟨huid, hult⟩ := id_eq_place (s := s) (t := t) h hprec hreg hx hvlen hu
  refine ⟨huid ▸ hult, fun v hv heq => ?_⟩
  obtain ⟨hvid, -⟩ := id_eq_place (s := s) (t := t) h hprec hreg hx hvlen hv
  refine RegUse.place_inj hu hv (row_lt_utPerBank hvlen hu) (row_lt_utPerBank hvlen hv) ?_
  rw [← huid, ← hvid, heq]

/-! ### No x register -/

/-- The f registers then start at 127 times the number of rows. -/
theorem id_of_nxpr_zero (h : SetsConfig x i) (hprec : nextPrec c i = 0) (hx : (nxpr i).toNat = 0)
    (hfloat : u.reg.float = true) :
    (u.id (s.setcfg i t)).toNat =
      (u.row * (nfpr i).toNat + u.reg.num.toNat + utPerBank c i * 127) % 256 := by
  obtain ⟨-, hfs, hxf⟩ := setcfg_eq (s := s) h hprec t
  rw [toNat_nxpr_sub h.le.1, hx, if_neg (by decide)] at hxf
  rw [RegUse.id_float hfloat, hfs, hxf]
  omega

theorem float_of_nxpr_zero (hx : (nxpr i).toNat = 0)
    (hu : u.Occurs vlen (nxpr i).toNat (nfpr i).toNat) :
    u.reg.float = true ∧ u.reg.num.toNat < (nfpr i).toNat := by
  have hreg := hu.reg
  rw [ArchReg.Allocated, hx] at hreg
  split at hreg
  · rename_i hfloat
    exact ⟨hfloat, hreg⟩
  · omega

theorem separate_of_nxpr_zero (h : SetsConfig x i) (hprec : nextPrec c i = 0)
    (hreg : c.nregPerBank ≤ 256) (hx : (nxpr i).toNat = 0)
    (hplace : ∀ j < utPerBank c i * (nfpr i).toNat,
      (j + utPerBank c i * 127) % 256 < c.nregPerBank) : s.Separate i t := by
  have hfits := utPerBank_mul_le h hprec
  rw [hx, Nat.pred_zero, Nat.zero_add] at hfits
  intro vlen hvlen u hu
  obtain ⟨hufloat, hunum⟩ := float_of_nxpr_zero hx hu
  have hult := rowMajor_lt (row_lt_utPerBank hvlen hu) hunum
  refine ⟨?_, fun v hv heq => ?_⟩
  · rw [id_of_nxpr_zero h hprec hx hufloat]
    exact hplace _ hult
  · obtain ⟨hvfloat, hvnum⟩ := float_of_nxpr_zero hx hv
    have hvlt := rowMajor_lt (row_lt_utPerBank hvlen hv) hvnum
    have hid := congrArg BitVec.toNat heq
    rw [id_of_nxpr_zero h hprec hx hufloat, id_of_nxpr_zero h hprec hx hvfloat] at hid
    refine RegUse.place_inj hu hv (row_lt_utPerBank hvlen hu) (row_lt_utPerBank hvlen hv) ?_
    rw [RegUse.place, RegUse.place, hufloat, hvfloat, if_pos rfl, if_pos rfl]
    omega

theorem place_of_separate (h : SetsConfig x i) (hprec : nextPrec c i = 0)
    (hx : (nxpr i).toNat = 0) (hsep : s.Separate i t) (j : ℕ)
    (hj : j < utPerBank c i * (nfpr i).toNat) :
    (j + utPerBank c i * 127) % 256 < c.nregPerBank := by
  have hpos : 0 < (nfpr i).toNat := by
    rw [Nat.pos_iff_ne_zero]
    intro hzero
    rw [hzero, Nat.mul_zero] at hj
    exact Nat.not_lt_zero _ hj
  have hnum := Nat.mod_lt j hpos
  have htoNat : (BitVec.ofNat 5 (j % (nfpr i).toNat)).toNat = j % (nfpr i).toNat := by
    rw [BitVec.toNat_ofNat]
    have hle := h.le.2
    exact Nat.mod_eq_of_lt (by omega)
  let u : RegUse := ⟨Issue.idle, j / (nfpr i).toNat, ⟨true, .ofNat 5 (j % (nfpr i).toNat)⟩⟩
  have hrow : u.row = j / (nfpr i).toNat := by
    show 0 / 8 + j / (nfpr i).toNat = _
    rw [Nat.zero_div, Nat.zero_add]
  have hrowlt : j / (nfpr i).toNat < utPerBank c i := Nat.div_lt_of_lt_mul (by rwa [Nat.mul_comm])
  have hu : u.Occurs (newMaxvl c i) (nxpr i).toNat (nfpr i).toNat := by
    refine ⟨rfl, ?_, ?_⟩
    · rw [hrow, newMaxvl, Nat.shiftLeft_eq]
      omega
    · rw [ArchReg.Allocated, if_pos rfl]
      exact htoNat.trans_lt hnum
  have hid := (hsep _ le_rfl u hu).1
  rw [id_of_nxpr_zero h hprec hx rfl, hrow, htoNat, Nat.div_add_mod'] at hid
  exact hid

/-- **When the registers are separate.** -/
theorem separate_iff (c : HwachaConfiguration) (hreg : c.nregPerBank ≤ 256)
    (x : BitVec 32 → DontCares) (s : Dispatch c) (i : DispatchIn) (h : SetsConfig x i)
    (hprec : nextPrec c i = 0) (t : Issue.IssueTVEC) : s.Separate i t ↔ SplitOk c i := by
  have hfits := utPerBank_mul_le h hprec
  rcases Nat.eq_zero_or_pos (nxpr i).toNat with hx | hx
  · rw [hx, Nat.pred_zero, Nat.zero_add] at hfits
    constructor
    · intro hsep
      have hplace := place_of_separate h hprec hx hsep
      by_cases hnf : (nfpr i).toNat = 0
      · exact .inr (.inl hnf)
      by_cases hut : utPerBank c i = 0
      · exact .inr (.inr (.inl hut))
      by_cases hfull : c.nregPerBank = 256
      · exact .inr (.inr (.inr (.inl hfull)))
      · exact .inr (.inr (.inr (.inr (room_of_lt (by omega) (by omega) (by omega) hplace))))
    · intro hok
      refine separate_of_nxpr_zero h hprec hreg hx fun j hj => ?_
      rcases hok with hpos | hnf | hut | hfull | ⟨hodd, hless, hroom⟩
      · omega
      · rw [hnf, Nat.mul_zero] at hj
        exact (Nat.not_lt_zero _ hj).elim
      · rw [hut, Nat.zero_mul] at hj
        exact (Nat.not_lt_zero _ hj).elim
      · rw [hfull]
        exact Nat.mod_lt _ (by decide)
      · have hsplit : utPerBank c i * (nfpr i).toNat ≤
            utPerBank c i * ((nfpr i).toNat - 1) + utPerBank c i := by
          rw [← Nat.mul_succ]
          exact Nat.mul_le_mul_left _ (by omega)
        omega
  · exact iff_of_true (separate_of_nxpr h hprec hreg hx) (.inl hx)

/-- `vsetcfg`, for some numbers of registers. -/
def vsetcfg (rs1 : BitVec 64) : DispatchIn := offer 0x0000200b rs1

/-- All 32 x registers and all f registers, in banks of 256 places. -/
theorem separate_iff_all :
    start.Separate (vsetcfg 0x820) Issue.IssueTVEC.reset ↔ SplitOk chip (vsetcfg 0x820) :=
  separate_iff chip (by decide) zeros start (vsetcfg 0x820) ⟨rfl, by decide, by decide⟩ rfl
    Issue.IssueTVEC.reset

/-- Two f registers and no x register, in banks of 128 places: register f1 of row 31 is at place
255. -/
theorem not_separate : ¬∀ c : HwachaConfiguration, c.nregPerBank ≤ 256 →
    ∀ (x : BitVec 32 → DontCares) (s : Dispatch c) (i : DispatchIn), SetsConfig x i →
      nextPrec c i = 0 → ∀ t, s.Separate i t := by
  intro h
  let s : Dispatch ⟨8, 128, false⟩ :=
    ⟨⟨32, 0, (32 : BitVec 6) ++ (32 : BitVec 6), 0⟩, false, false, start.respq, start.vcmdq,
      start.vpfcmdq, 19, 19, 17⟩
  have hset : SetsConfig zeros (vsetcfg 0x80) := ⟨rfl, by decide, by decide⟩
  have hsep := h ⟨8, 128, false⟩ (by decide) zeros s (vsetcfg 0x80) hset rfl Issue.IssueTVEC.reset
  exact absurd (place_of_separate hset rfl rfl hsep 63 (by decide)) (by decide)

end Dispatch

end Hwacha

end RiscvSoc
