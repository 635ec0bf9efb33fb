import RiscvSoc.Hwacha.Issue
import RiscvSoc.Hwacha.VMUMem
import RiscvSoc.Lib.CountedLoop
import RiscvSoc.Lib.SerialArith

/-!
# The vector prefetcher

`VRU` reads the memory commands ahead of the lanes and asks for the lines that they will touch. A
stride of less than a line goes line by line: the elements that begin a line are counted with the
quotient of the line length by the stride, out of a table, and one more when what remained of an
element fits into what the quotient leaves. A longer stride goes element by element.

A count says how many elements have been executed before a restart. A line on which one of them lies
is not asked for again, even if other elements of the line are still to come. Only a command with a
short stride loads the count: one with a long stride finds what the last short one has left.
-/

namespace RiscvSoc

namespace Hwacha

/-! ### Commands -/

/-- One line of the table of `VRU`. -/
structure VRURow where
  stride : BitVec 4
  setvl : Bool
  pf : Bool
  deqImm1q : Bool
  deqImm2q : Bool

namespace VRURow

def setting : VRURow := ⟨0, true, true, true, false⟩

/-- A vector load or store of elements next to each other. -/
def unit (stride : BitVec 4) : VRURow := ⟨stride, false, true, true, false⟩

/-- One with a stride. -/
def strided : VRURow := ⟨0, false, true, true, true⟩

/-- Not relevant for prefetch, just dequeued with its immediate. -/
def dequeued : VRURow := ⟨0, false, false, true, false⟩

def default : VRURow := ⟨0, false, false, false, false⟩

def table : List (BitVec 8 × VRURow) := [
   -- CMD_VSETCFG, CMD_VSETVL
   (0b00000000, setting),
   (0b00000010, setting),
   -- CMD_VLD, CMD_VLW, CMD_VLWU, CMD_VLH, CMD_VLHU, CMD_VLB, CMD_VLBU
   (0b10000011, unit 8),
   (0b10000010, unit 4),
   (0b10000110, unit 4),
   (0b10000001, unit 2),
   (0b10000101, unit 2),
   (0b10000000, unit 1),
   (0b10000100, unit 1),
   -- CMD_VSD, CMD_VSW, CMD_VSH, CMD_VSB
   (0b10010011, unit 8),
   (0b10010010, unit 4),
   (0b10010001, unit 2),
   (0b10010000, unit 1),
   -- CMD_VFLD, CMD_VFLW, CMD_VFSD, CMD_VFSW
   (0b10001011, unit 8),
   (0b10001010, unit 4),
   (0b10011011, unit 8),
   (0b10011010, unit 4),
   -- CMD_VLSTD, CMD_VLSTW, CMD_VLSTWU, CMD_VLSTH, CMD_VLSTHU, CMD_VLSTB, CMD_VLSTBU
   (0b10100011, strided),
   (0b10100010, strided),
   (0b10100110, strided),
   (0b10100001, strided),
   (0b10100101, strided),
   (0b10100000, strided),
   (0b10100100, strided),
   -- CMD_VSSTD, CMD_VSSTW, CMD_VSSTH, CMD_VSSTB
   (0b10110011, strided),
   (0b10110010, strided),
   (0b10110001, strided),
   (0b10110000, strided),
   -- CMD_VFLSTD, CMD_VFLSTW, CMD_VFSSTD, CMD_VFSSTW
   (0b10101011, strided),
   (0b10101010, strided),
   (0b10111011, strided),
   (0b10111010, strided),
   -- CMD_VF, CMD_VMSV, CMD_VFMSV_S, CMD_VFMSV_D
   (0b00000011, dequeued),
   (0b01001000, dequeued),
   (0b01001001, dequeued),
   (0b01011001, dequeued)]

/-- The line of a command. -/
def find (cmd : BitVec 8) : VRURow := (table.lookup cmd).getD default

end VRURow

/-! ### State -/

inductive VRUState
  | idle
  | issueShort
  | issueLong
  deriving DecidableEq

structure VVAPFQEntry where
  cmd : BitVec 5
  typ : BitVec 3
  addr : BitVec 43
  deriving DecidableEq

/-- Three registers are signed. -/
structure VRU where
  state : VRUState
  vlen : BitVec 13
  addr : BitVec 64
  cmd : BitVec 8
  vecCount : BitVec 13
  vecPfedCount : BitVec 13
  stride : BitVec 64
  vecPerPf : BitVec 7
  vecPfRemainder : BitVec 6
  strideRemaining : BitVec 6
  deriving DecidableEq

/-- The heads of the command queue, and the other side of the prefetch queue. -/
structure VRUIn where
  cmd : Option HwachaCommand
  imm1 : Option (BitVec 64)
  imm2 : Option (BitVec 64)
  cnt : Option (BitVec 12)
  vaqReady : Bool

/-- `pf_len`. -/
def pfLen : ℕ := 64

namespace VRU

def reset : VRU := ⟨.idle, 0, 0, 0, 0, 0, 0, 0, 0, 0⟩

/-! ### Decoding -/

section

variable (i : VRUIn)

def ctrl : VRURow := i.cmd.elim .default fun c => .find c.cmcode

/-- `addr`. -/
def imm1 : BitVec 64 := i.imm1.getD 0

def strideIn : BitVec 64 :=
  if (ctrl i).stride ≠ 0 then (ctrl i).stride.setWidth 64 else i.imm2.getD 0

/-- `mask_vpfimm1q_valid`. -/
def maskImm1 : Bool := i.imm1.isSome || !(ctrl i).deqImm1q

/-- `mask_vpfimm2q_valid`. -/
def maskImm2 : Bool := i.imm2.isSome || !(ctrl i).deqImm2q

def cmdVal : Bool := i.cmd.isSome && maskImm1 i && maskImm2 i && (ctrl i).pf

def setvlVal : Bool := i.cmd.isSome && maskImm1 i && (ctrl i).setvl && (ctrl i).pf

end

/-- The quotients of the table. -/
def divTable (x : BitVec 5) : BitVec 7 :=
  if 1 ≤ x.toNat ∧ x.toNat ≤ 16 then BitVec.ofNat 7 (pfLen / x.toNat) else 0

/-- The quotient `i`, for the strides between the next one and it. -/
def divStep (lobits : BitVec 7) (div : BitVec 7) (i : ℕ) : BitVec 7 :=
  if lobits ≤ BitVec.ofNat 7 (pfLen / i) ∧ BitVec.ofNat 7 (pfLen / (i + 1) + 1) ≤ lobits then
    BitVec.ofNat 7 i
  else div

/-- `div`. -/
def div (stride : BitVec 64) : BitVec 7 :=
  [3, 2, 1].foldl (divStep (stride.setWidth 7)) (divTable (stride.setWidth 5))

/-! ### One cycle -/

section

variable (s : VRU) (i : VRUIn)

/-- The elements that are left are not among those already executed. -/
def fresh : Bool := s.vecCount.sle (s.vlen - s.vecPfedCount)

/-- `io.vaq.valid`. -/
def vaqValid : Bool :=
  match s.state with
  | .idle => false
  | .issueShort => !s.vecCount.sle 0 && s.fresh
  | .issueLong => !decide (s.vecCount = 0) && s.fresh

/-- `io.vaq.bits`. -/
def vaqBits : VVAPFQEntry :=
  ⟨if s.cmd.getLsbD 4 then VMUFn.M_PFW else VMUFn.M_PFR, 0, s.addr.setWidth 43⟩

/-- What the prefetch queue takes. -/
def out : List VVAPFQEntry := if s.vaqValid && i.vaqReady then [s.vaqBits] else []

/-- A command with a stride of less than a line. -/
def takeShort : VRU :=
  { s with
    state := .issueShort
    addr := imm1 i
    cmd := i.cmd.elim 0 (·.cmcode)
    stride := strideIn i
    vecPfedCount := (i.cnt.getD 0).setWidth 13
    vecCount := if (strideIn i).setWidth 7 = 0 then 1 else s.vlen
    vecPerPf := if (strideIn i).setWidth 7 = 0 then 1 else div (strideIn i)
    vecPfRemainder :=
      (BitVec.ofNat 14 pfLen - (div (strideIn i)).setWidth 14 * (strideIn i).setWidth 14).setWidth 6
    strideRemaining := (strideIn i).setWidth 6 }

/-- One with a longer stride. -/
def takeLong : VRU :=
  { s with
    state := .issueLong
    addr := imm1 i
    cmd := i.cmd.elim 0 (·.cmcode)
    stride := strideIn i
    vecCount := s.vlen }

/-- What remains of the element at the end of the line fits into what the quotient leaves. -/
def oneMore : Bool := decide (s.strideRemaining ≤ s.vecPfRemainder)

/-- The next line. -/
def turnShort : VRU :=
  { s with
    vecCount := s.vecCount - s.vecPerPf.setWidth 13 - if s.oneMore then 1 else 0
    strideRemaining :=
      if s.oneMore then
        (s.stride + s.strideRemaining.setWidth 64 - s.vecPfRemainder.setWidth 64).setWidth 6
      else s.strideRemaining - s.vecPfRemainder
    addr := s.addr + BitVec.ofNat 64 pfLen }

/-- The next element. -/
def turnLong : VRU :=
  { s with
    addr := s.addr + s.stride
    vecCount := s.vecCount - 1 }

def next : VRU :=
  match s.state with
  | .idle =>
    if setvlVal i then { s with vlen := (Issue.HwachaImm1.fromBits (imm1 i)).vlen.setWidth 13 }
    else if cmdVal i then
      if strideIn i < BitVec.ofNat 64 pfLen then s.takeShort i else s.takeLong i
    else s
  | .issueShort =>
    if s.vecCount.sle 0 then { s with state := .idle } else if i.vaqReady then s.turnShort else s
  | .issueLong =>
    if s.vecCount = 0 then { s with state := .idle } else if i.vaqReady then s.turnLong else s

end

/-! ### What a command asks for -/

/-- A memory command is taken. -/
structure Takes (s : VRU) (i : VRUIn) : Prop where
  idle : s.state = .idle
  setvl : setvlVal i = false
  cmd : cmdVal i = true

end VRU

/-- A memory command as it is taken. -/
structure Access where
  write : Bool
  base : BitVec 64
  stride : BitVec 64
  vlen : ℕ
  /-- How many elements have been executed. -/
  cnt : ℕ

namespace Access

variable (a : Access)

/-- The stride is less than a line. -/
def short : Bool := decide (a.stride.toNat < pfLen)

/-- How many prefetches there are: as many as lines that the elements span, or one for each
element. -/
def number : ℕ :=
  if a.short then (a.vlen * a.stride.toNat + (pfLen - 1)) / pfLen else a.vlen

/-- Where prefetch `k` is, from the base on. -/
def offset (k : ℕ) : ℕ := if a.short then pfLen * k else a.stride.toNat * k

def entry (k : ℕ) : VVAPFQEntry :=
  ⟨if a.write then VMUFn.M_PFW else VMUFn.M_PFR, 0,
    (a.base + BitVec.ofNat 64 (a.offset k)).setWidth 43⟩

/-- Element `e` is one of those that prefetch `k` is for. -/
def Holds (k e : ℕ) : Prop :=
  if a.short then pfLen * k < a.stride.toNat * (e + 1) ∧ a.stride.toNat * e < pfLen * (k + 1)
  else e = k

instance instDecidableHolds (k e : ℕ) : Decidable (a.Holds k e) :=
  inferInstanceAs (Decidable (if a.short then
    pfLen * k < a.stride.toNat * (e + 1) ∧ a.stride.toNat * e < pfLen * (k + 1) else e = k))

/-- All elements of the line have been executed. -/
def allDone (k : ℕ) : Bool := decide (∀ e < a.vlen, a.Holds k e → e < a.cnt)

/-- One of them has. -/
def someDone (k : ℕ) : Bool := decide (∃ e < a.vlen, a.Holds k e ∧ e < a.cnt)

/-- The prefetches in their order, without those that are left out. -/
def without (skip : ℕ → Bool) : List VVAPFQEntry :=
  ((List.range a.number).filter fun k => !skip k).map a.entry

end Access

namespace VRU

/-- The command that is taken. -/
def access (s : VRU) (i : VRUIn) : Access where
  write := (i.cmd.elim (0 : BitVec 8) (·.cmcode)).getLsbD 4
  base := imm1 i
  stride := strideIn i
  vlen := s.vlen.toNat
  cnt := (i.cnt.getD 0).toNat

end VRU

/-! ### Which prefetches there are -/

namespace Access

variable {a : Access} {k : ℕ}

/-- The first element that prefetch `k` is for. -/
def first (a : Access) (k : ℕ) : ℕ := if a.short then pfLen * k / a.stride.toNat else k

theorem holds_first (hstride : 0 < a.stride.toNat) : a.Holds k (a.first k) := by
  cases hshort : a.short with
  | false => simp only [Holds, first, hshort, Bool.false_eq_true, if_false]
  | true =>
    simp only [Holds, first, hshort, if_true]
    constructor
    · exact Nat.lt_mul_div_succ (pfLen * k) hstride
    · exact (Nat.mul_div_le (pfLen * k) _).trans_lt
        (Nat.mul_lt_mul_of_pos_left (Nat.lt_succ_self k) (by decide))

theorem Holds.first_le {e : ℕ} (h : a.Holds k e) : a.first k ≤ e := by
  cases hshort : a.short with
  | false =>
    simp only [Holds, first, hshort, Bool.false_eq_true, if_false] at h ⊢
    exact h.ge
  | true =>
    simp only [Holds, first, hshort, if_true] at h ⊢
    exact Nat.le_of_lt_succ (Nat.div_lt_of_lt_mul h.1)

theorem lt_number_iff (hstride : 0 < a.stride.toNat) : k < a.number ↔ a.first k < a.vlen := by
  cases hshort : a.short with
  | false => simp only [number, first, hshort, Bool.false_eq_true, if_false]
  | true =>
    simp only [number, first, hshort, if_true, pfLen]
    rw [Nat.div_lt_iff_lt_mul hstride]
    omega

theorem someDone_iff (hstride : 0 < a.stride.toNat) (hk : k < a.number) :
    a.someDone k = true ↔ a.first k < a.cnt := by
  rw [someDone, decide_eq_true_eq]
  constructor
  · rintro ⟨e, -, hholds, hcnt⟩
    exact hholds.first_le.trans_lt hcnt
  · exact fun h => ⟨a.first k, (lt_number_iff hstride).mp hk, holds_first hstride, h⟩

/-- Prefetch `k`, if it is not left out. -/
def turn (a : Access) (skip : ℕ → Bool) (k : ℕ) : List VVAPFQEntry :=
  if skip k then [] else [a.entry k]

theorem without_eq_flatMap (skip : ℕ → Bool) :
    a.without skip = (List.range' 0 (a.number - 0)).flatMap (a.turn skip) := by
  rw [without, Nat.sub_zero, ← List.range_eq_range']
  induction List.range a.number with
  | nil => rfl
  | cons k l ih =>
    rw [List.flatMap_cons, ← ih, turn]
    cases hskip : skip k with
    | false => rw [List.filter_cons_of_pos (by rw [hskip]; rfl), List.map_cons]; rfl
    | true => rw [List.filter_cons_of_neg (by rw [hskip]; decide)]; rfl

theorem without_someDone_of_cnt (hcnt : a.cnt = 0) :
    a.without a.someDone = (List.range a.number).map a.entry := by
  rw [without, List.filter_eq_self.mpr]
  intro k _
  rw [Bool.not_eq_true', someDone, decide_eq_false_iff_not]
  rintro ⟨e, -, -, he⟩
  exact absurd (hcnt ▸ he) (Nat.not_lt_zero e)

end Access

namespace VRU

/-! ### Signed counts -/

theorem toInt_of_lt {x : BitVec 13} (h : x.toNat < 4096) : x.toInt = x.toNat :=
  BitVec.toInt_eq_toNat_of_lt (by omega)

theorem toInt_sub_of_bounds {x y : BitVec 13} (hlo : -4096 ≤ x.toInt - y.toInt)
    (hhi : x.toInt - y.toInt < 4096) : (x - y).toInt = x.toInt - y.toInt := by
  rw [BitVec.toInt_sub]
  exact Int.bmod_eq_of_le (by omega) (by omega)

/-! ### The quotient -/

theorem div_ofNat : ∀ n < pfLen, 0 < n → (div (BitVec.ofNat 64 n)).toNat = pfLen / n := by
  decide +kernel

theorem remainder_ofNat : ∀ n < pfLen, 0 < n →
    ((BitVec.ofNat 14 pfLen - (div (BitVec.ofNat 64 n)).setWidth 14 *
      (BitVec.ofNat 64 n).setWidth 14).setWidth 6).toNat = pfLen % n := by
  decide +kernel

/-! ### Inside a command -/

/-- The registers of the running division, before line `k`. -/
structure Divides (s : VRU) (d k : ℕ) : Prop where
  perPf : s.vecPerPf.toNat = pfLen / d
  remainder : s.vecPfRemainder.toNat = pfLen % d
  remaining : s.strideRemaining.toNat = SerialArith.runDist pfLen d k

/-- Prefetch `k` is the next one. -/
structure At (a : Access) (k : ℕ) (s : VRU) : Prop where
  le : k ≤ a.number
  state : s.state = if a.short then .issueShort else .issueLong
  write : s.cmd.getLsbD 4 = a.write
  addr : s.addr = a.base + BitVec.ofNat 64 (a.offset k)
  stride : s.stride = a.stride
  vlen : s.vlen.toNat = a.vlen
  cnt : s.vecPfedCount.toNat = a.cnt
  count : s.vecCount.toInt = a.vlen - a.first k
  divides : a.short = true → s.Divides a.stride.toNat k

/-- The counts fit into their registers. -/
structure Bounded (a : Access) : Prop where
  stride : 0 < a.stride.toNat
  vlen : a.vlen < 4096
  cnt : a.cnt < 4096

section

variable {a : Access} {k : ℕ} {s : VRU} {i : VRUIn}

section

variable (h : s.At a k)
include h

theorem At.fresh_eq (ha : Bounded a) (hk : k < a.number) :
    s.fresh = !a.someDone k := by
  have hvlen := ha.vlen
  have hcnt := ha.cnt
  have hfirst := (Access.lt_number_iff ha.stride).mp hk
  have hv : s.vlen.toInt = a.vlen := by rw [toInt_of_lt (h.vlen ▸ hvlen), h.vlen]
  have hc : s.vecPfedCount.toInt = a.cnt := by rw [toInt_of_lt (h.cnt ▸ hcnt), h.cnt]
  rw [Bool.eq_iff_iff, fresh, BitVec.sle_iff_toInt_le, h.count,
    toInt_sub_of_bounds (by omega) (by omega), hv, hc, Bool.not_eq_true', ← Bool.not_eq_true,
    Access.someDone_iff ha.stride hk]
  omega

/-- The counter says when the command has come to its end. -/
theorem At.count_pos (ha : Bounded a) : 0 < s.vecCount.toInt ↔ k < a.number := by
  rw [h.count, Access.lt_number_iff ha.stride]
  omega

theorem At.count_zero (hlong : a.short = false) (hk : ¬k < a.number) : s.vecCount = 0 := by
  have hle := h.le
  have hcount := h.count
  have hno : ¬a.short = true := Bool.not_eq_true _ ▸ hlong
  rw [Access.first, if_neg hno] at hcount
  rw [Access.number, if_neg hno] at hle hk
  rw [← BitVec.toInt_inj, hcount]
  show _ = (0 : ℤ)
  omega

theorem At.vaqValid_eq (ha : Bounded a) (hk : k < a.number) :
    s.vaqValid = !a.someDone k := by
  have hpos := (h.count_pos ha).mpr hk
  have hstate := h.state
  cases hshort : a.short with
  | false =>
    rw [hshort, if_neg (by simp)] at hstate
    have hne : s.vecCount ≠ 0 := by
      intro h0
      rw [h0] at hpos
      exact absurd hpos (by decide)
    rw [vaqValid, hstate, h.fresh_eq ha hk, decide_eq_false hne]
    rfl
  | true =>
    rw [hshort, if_pos rfl] at hstate
    have hsle : s.vecCount.sle 0 = false := by
      rw [BitVec.sle_eq_decide, decide_eq_false_iff_not]
      exact not_le.mpr hpos
    rw [vaqValid, hstate, h.fresh_eq ha hk, hsle]
    rfl

theorem At.not_valid (ha : Bounded a) (hk : ¬k < a.number) : s.vaqValid = false := by
  have hstate := h.state
  cases hshort : a.short with
  | false =>
    rw [hshort, if_neg (by simp)] at hstate
    rw [vaqValid, hstate, decide_eq_true (h.count_zero hshort hk)]
    rfl
  | true =>
    have hsle : s.vecCount.sle 0 = true := by
      rw [BitVec.sle_eq_decide, decide_eq_true_eq]
      exact not_lt.mp ((not_congr (h.count_pos ha)).mpr hk)
    rw [hshort, if_pos rfl] at hstate
    rw [vaqValid, hstate, hsle]
    rfl

theorem At.vaqBits_eq : s.vaqBits = a.entry k := by
  rw [vaqBits, Access.entry, h.write, h.addr]

theorem At.out_of_ready (ha : Bounded a) (hk : k < a.number)
    (hready : i.vaqReady = true) : s.out i = a.turn a.someDone k := by
  rw [out, h.vaqValid_eq ha hk, hready, h.vaqBits_eq, Access.turn, Bool.and_true]
  cases a.someDone k <;> rfl

end

theorem out_of_not_ready (hready : ¬i.vaqReady = true) : s.out i = [] := by
  rw [out, Bool.eq_false_of_not_eq_true hready, Bool.and_false]
  rfl

/-! ### One prefetch -/

theorem Divides.oneMore_iff {d : ℕ} (h : s.Divides d k) :
    s.oneMore = true ↔ SerialArith.runDist pfLen d k ≤ pfLen % d := by
  rw [oneMore, decide_eq_true_eq, BitVec.le_def, h.remaining, h.remainder]

theorem Divides.remaining_turnShort {d : ℕ} (h : s.Divides d k) (hd : 0 < d) (hlt : d < 64)
    (hstride : s.stride.toNat = d) :
    s.turnShort.strideRemaining.toNat = SerialArith.runDist pfLen d (k + 1) := by
  have hmod : pfLen % d < d := Nat.mod_lt _ hd
  have hle := SerialArith.runDist_le pfLen d k
  have hone := h.oneMore_iff
  have hnext := SerialArith.runDist_succ hd pfLen k
  have hrem := h.remaining
  have hr := h.remainder
  rw [hnext]
  cases hmore : s.oneMore with
  | false =>
    rw [hmore] at hone
    rw [if_neg (fun hc => Bool.false_ne_true (hone.mpr hc)), ← hrem, ← hr]
    show (if s.oneMore then _ else s.strideRemaining - s.vecPfRemainder : BitVec 6).toNat = _
    rw [hmore, if_neg (by simp), BitVec.toNat_sub_of_le]
    rw [BitVec.le_def, hrem, hr]
    exact (not_le.mp fun hc => Bool.false_ne_true (hone.mpr hc)).le
  | true =>
    rw [if_pos (hone.mp hmore), ← hrem, ← hr]
    show (if s.oneMore then BitVec.setWidth 6 _ else _ : BitVec 6).toNat = _
    rw [hmore, if_pos rfl, BitVec.toNat_setWidth, BitVec.toNat_sub, BitVec.toNat_add,
      BitVec.toNat_setWidth, BitVec.toNat_setWidth, hstride]
    have hfits : d + s.strideRemaining.toNat - s.vecPfRemainder.toNat ≤ d := by
      rw [hrem, hr]
      have := hone.mp hmore
      omega
    omega

theorem Divides.count_turnShort {d : ℕ} (h : s.Divides d k) (hd : 0 < d)
    (hlo : 0 ≤ s.vecCount.toInt) (hhi : s.vecCount.toInt < 4096) :
    s.turnShort.vecCount.toInt + (pfLen * (k + 1) / d : ℕ) =
      s.vecCount.toInt + (pfLen * k / d : ℕ) := by
  have hper : pfLen / d ≤ 64 := Nat.div_le_self _ _
  have hnat := h.perPf
  have hquot := SerialArith.runQuot_succ hd pfLen k
  generalize pfLen / d = q at hper hnat hquot
  have hperPf : (s.vecPerPf.setWidth 13).toInt = q := by
    have hwide : (s.vecPerPf.setWidth 13).toNat = q := by
      rw [BitVec.toNat_setWidth, hnat]
      omega
    rw [toInt_of_lt (by omega), hwide]
  have hfirst : (s.vecCount - s.vecPerPf.setWidth 13).toInt = s.vecCount.toInt - q := by
    rw [toInt_sub_of_bounds (by omega) (by omega), hperPf]
  rw [hquot]
  show (s.vecCount - s.vecPerPf.setWidth 13 - if s.oneMore then 1 else 0 : BitVec 13).toInt + _ = _
  cases hmore : s.oneMore with
  | false =>
    have hbit : (0 : BitVec 13).toInt = 0 := by decide
    rw [if_neg (by simp), toInt_sub_of_bounds (by omega) (by omega), hfirst, hbit,
      if_neg fun hc => Bool.false_ne_true (hmore ▸ h.oneMore_iff.mpr hc)]
    push_cast
    ring
  | true =>
    have hbit : (1 : BitVec 13).toInt = 1 := by decide
    rw [if_pos rfl, toInt_sub_of_bounds (by omega) (by omega), hfirst, hbit,
      if_pos (h.oneMore_iff.mp hmore)]
    push_cast
    ring

theorem At.turnShort (h : s.At a k) (ha : Bounded a) (hshort : a.short = true)
    (hk : k < a.number) : s.turnShort.At a (k + 1) := by
  have hlt : a.stride.toNat < 64 := of_decide_eq_true hshort
  have hdiv := h.divides hshort
  have hpos := (h.count_pos ha).mpr hk
  have hvlen := ha.vlen
  have hcount := h.count
  have hstep := hdiv.count_turnShort ha.stride hpos.le (by omega)
  have hremaining := hdiv.remaining_turnShort ha.stride hlt (congrArg BitVec.toNat h.stride)
  refine ⟨hk, h.state, h.write, ?_, h.stride, h.vlen, h.cnt, ?_,
    fun _ => ⟨hdiv.perPf, hdiv.remainder, hremaining⟩⟩
  · show s.addr + BitVec.ofNat 64 pfLen = _
    rw [h.addr, Access.offset, Access.offset, if_pos hshort, if_pos hshort, BitVec.add_assoc,
      ← BitVec.ofNat_add, Nat.mul_succ]
  · rw [Access.first, if_pos hshort] at hcount ⊢
    omega

theorem At.turnLong (h : s.At a k) (ha : Bounded a) (hlong : a.short = false)
    (hk : k < a.number) : s.turnLong.At a (k + 1) := by
  have hno : ¬a.short = true := Bool.not_eq_true _ ▸ hlong
  have hpos := (h.count_pos ha).mpr hk
  have hvlen := ha.vlen
  have hcount := h.count
  have hone : (1 : BitVec 13).toInt = 1 := by decide
  refine ⟨hk, h.state, h.write, ?_, h.stride, h.vlen, h.cnt, ?_, fun hc => absurd hc hno⟩
  · show s.addr + s.stride = _
    rw [h.addr, h.stride, Access.offset, Access.offset, if_neg hno, if_neg hno, BitVec.add_assoc,
      Nat.mul_succ, BitVec.ofNat_add, BitVec.ofNat_toNat, BitVec.setWidth_eq]
  · rw [Access.first, if_neg hno] at hcount ⊢
    show (s.vecCount - 1).toInt = _
    rw [toInt_sub_of_bounds (by omega) (by omega), hone, hcount]
    push_cast
    ring

theorem At.next_eq (h : s.At a k) (ha : Bounded a) : s.next i =
    if k < a.number then
      if i.vaqReady then if a.short then s.turnShort else s.turnLong else s
    else { s with state := .idle } := by
  have hpos := h.count_pos ha
  have hstate := h.state
  cases hshort : a.short with
  | false =>
    have hzero : s.vecCount = 0 ↔ ¬k < a.number := by
      refine ⟨fun h0 hk => ?_, h.count_zero hshort⟩
      have hlt := hpos.mpr hk
      rw [h0] at hlt
      exact absurd hlt (by decide)
    rw [hshort, if_neg Bool.false_ne_true] at hstate
    by_cases hk : k < a.number
    · rw [next, hstate, if_pos hk]
      show (if s.vecCount = 0 then _ else _ : VRU) = _
      rw [if_neg (fun hc => hzero.mp hc hk), if_neg Bool.false_ne_true]
    · rw [next, hstate, if_neg hk]
      exact if_pos (hzero.mpr hk)
  | true =>
    have hsle : s.vecCount.sle 0 = true ↔ ¬k < a.number := by
      rw [BitVec.sle_iff_toInt_le, ← hpos]
      exact not_lt.symm
    rw [hshort, if_pos rfl] at hstate
    by_cases hk : k < a.number
    · rw [next, hstate, if_pos hk, if_pos rfl]
      exact if_neg fun hc => hsle.mp hc hk
    · rw [next, hstate, if_neg hk]
      exact if_pos (hsle.mpr hk)

theorem At.not_idle (h : s.At a k) : s.state ≠ .idle := by
  rw [h.state]
  cases a.short <;> decide

end

/-! ### Taking a command -/

section

variable {s : VRU} {i : VRUIn}

/-- The command, with the count that it finds in the register. -/
def held (s : VRU) (i : VRUIn) : Access :=
  { access s i with
    cnt := if (access s i).short then (access s i).cnt else s.vecPfedCount.toNat }

theorem Takes.next_eq (h : Takes s i) :
    s.next i = if (access s i).short then s.takeShort i else s.takeLong i := by
  rw [next, h.idle]
  show (if setvlVal i then _ else _ : VRU) = _
  rw [h.setvl, if_neg (by simp), if_pos h.cmd]
  exact if_congr (decide_eq_true_iff (p := (strideIn i).toNat < pfLen)).symm rfl rfl

theorem takeShort_divides (hpos : 0 < (strideIn i).toNat) (hlt : (strideIn i).toNat < 64) :
    (s.takeShort i).Divides (strideIn i).toNat 0 ∧ (s.takeShort i).vecCount = s.vlen := by
  have hlobits : ¬(strideIn i).setWidth 7 = 0 := by
    intro hc
    have hnat := congrArg BitVec.toNat hc
    rw [BitVec.toNat_setWidth, Nat.mod_eq_of_lt (by omega)] at hnat
    exact absurd hnat hpos.ne'
  have hofNat : BitVec.ofNat 64 (strideIn i).toNat = strideIn i := by
    rw [BitVec.ofNat_toNat, BitVec.setWidth_eq]
  refine ⟨⟨?_, ?_, ?_⟩, if_neg hlobits⟩
  · have hdiv := div_ofNat _ hlt hpos
    rw [hofNat] at hdiv
    exact (congrArg BitVec.toNat (if_neg hlobits)).trans hdiv
  · have hrem := remainder_ofNat _ hlt hpos
    rw [hofNat] at hrem
    exact hrem
  · show ((strideIn i).setWidth 6).toNat = _
    rw [BitVec.toNat_setWidth, SerialArith.runDist_zero, Nat.mod_eq_of_lt hlt]

theorem Takes.at_zero (h : Takes s i) (hpos : 0 < (strideIn i).toNat)
    (hvlen : s.vlen.toNat < 4096) : (s.next i).At (held s i) 0 := by
  have hv : s.vlen.toInt = s.vlen.toNat := toInt_of_lt hvlen
  have hfirst : (held s i).first 0 = 0 := by
    rw [Access.first, Nat.mul_zero, Nat.zero_div, ite_self]
  have hoffset : (held s i).offset 0 = 0 := by
    rw [Access.offset, Nat.mul_zero, Nat.mul_zero, ite_self]
  have haddr : imm1 i = (held s i).base + BitVec.ofNat 64 ((held s i).offset 0) := by
    rw [hoffset]
    exact (BitVec.add_zero _).symm
  rw [h.next_eq]
  cases hshort : (access s i).short with
  | false =>
    have hcnt : (held s i).cnt = s.vecPfedCount.toNat := by
      rw [held, hshort]
      rfl
    have hshort' : (held s i).short = false := hshort
    refine ⟨Nat.zero_le _, by rw [hshort']; rfl, rfl, haddr, rfl, rfl, hcnt.symm, ?_,
      fun hc => absurd (hshort.symm.trans hc) Bool.false_ne_true⟩
    rw [hfirst]
    exact hv.trans (Int.sub_zero _).symm
  | true =>
    obtain ⟨hdiv, hcount⟩ := takeShort_divides (s := s) hpos (of_decide_eq_true hshort)
    have hcnt : (held s i).cnt = (i.cnt.getD 0).toNat := by
      rw [held, hshort]
      rfl
    have hshort' : (held s i).short = true := hshort
    refine ⟨Nat.zero_le _, by rw [hshort']; rfl, rfl, haddr, rfl, rfl, ?_, ?_, fun _ => hdiv⟩
    · show ((i.cnt.getD 0).setWidth 13).toNat = _
      rw [hcnt, BitVec.toNat_setWidth]
      omega
    · show (s.takeShort i).vecCount.toInt = _
      rw [hcount, hv, hfirst]
      exact (Int.sub_zero _).symm

end

/-! ### Runs -/

def machine : Machine VRU VRUIn := Machine.clocked (· = reset) next

theorem counts_lt :
    ∀ s, machine.Reachable s → s.vlen.toNat < 4096 ∧ s.vecPfedCount.toNat < 4096 := by
  refine Machine.invariant ?_ ?_
  · rintro s rfl
    decide
  · rintro s i s' - ⟨hv, hc⟩ rfl
    have hwide : ∀ x : BitVec 12, (x.setWidth 13).toNat < 4096 := by
      intro x
      rw [BitVec.toNat_setWidth]
      omega
    cases hstate : s.state with
    | idle =>
      rw [next, hstate]
      show ((if setvlVal i then _ else _ : VRU).vlen.toNat < 4096) ∧
        (if setvlVal i then _ else _ : VRU).vecPfedCount.toNat < 4096
      cases setvlVal i with
      | true => exact ⟨hwide _, hc⟩
      | false =>
        cases cmdVal i with
        | false => exact ⟨hv, hc⟩
        | true =>
          by_cases hshort : strideIn i < BitVec.ofNat 64 pfLen
          · rw [if_neg (by simp), if_pos rfl, if_pos hshort]
            exact ⟨hv, hwide _⟩
          · rw [if_neg (by simp), if_pos rfl, if_neg hshort]
            exact ⟨hv, hc⟩
    | issueShort =>
      rw [next, hstate]
      show ((if s.vecCount.sle 0 then _ else _ : VRU).vlen.toNat < 4096) ∧
        (if s.vecCount.sle 0 then _ else _ : VRU).vecPfedCount.toNat < 4096
      cases s.vecCount.sle 0 with
      | true => exact ⟨hv, hc⟩
      | false => cases i.vaqReady <;> exact ⟨hv, hc⟩
    | issueLong =>
      rw [next, hstate]
      show ((if s.vecCount = 0 then _ else _ : VRU).vlen.toNat < 4096) ∧
        (if s.vecCount = 0 then _ else _ : VRU).vecPfedCount.toNat < 4096
      by_cases hzero : s.vecCount = 0
      · rw [if_pos hzero]
        exact ⟨hv, hc⟩
      · rw [if_neg hzero]
        cases i.vaqReady <;> exact ⟨hv, hc⟩

section

variable {st : ℕ → VRU} {lab : ℕ → VRUIn}

/-- What is asked for in the cycles of a run. -/
def asked (st : ℕ → VRU) (lab : ℕ → VRUIn) (t : ℕ) : List VVAPFQEntry := (st t).out (lab t)

theorem countedLoop (hrun : machine.Run st lab) {a : Access} (ha : Bounded a) :
    CountedLoop (fun k t => (st t).At a k) (fun t => (lab t).vaqReady = true) (asked st lab)
      a.number (a.turn a.someDone) (fun t => (st t).state = .idle) where
  wait := by
    intro k t h hk hready
    refine ⟨?_, out_of_not_ready hready⟩
    rw [hrun.step t, h.next_eq ha, if_pos hk, if_neg hready]
    exact h
  go := by
    intro k t h hk hready
    refine ⟨?_, h.out_of_ready ha hk hready⟩
    rw [hrun.step t, h.next_eq ha, if_pos hk, if_pos hready]
    cases hshort : a.short with
    | false => exact h.turnLong ha hshort hk
    | true => exact h.turnShort ha hshort hk
  leave := by
    intro k t h hk
    have hpos := (not_congr (h.count_pos ha)).mpr (not_lt.mpr hk)
    constructor
    · rw [hrun.step t, h.next_eq ha, if_neg (not_lt.mpr hk)]
    · rw [asked, out, h.not_valid ha (not_lt.mpr hk)]
      rfl
  busy := fun h => h.not_idle

theorem zeroLoop (hrun : machine.Run st lab) {s : VRU} (hstate : s.state = .issueShort)
    (hcount : s.vecCount.sle 0 = false) (hturn : s.turnShort.vecCount.sle 0 = true) :
    CountedLoop (fun k t => k = 0 ∧ st t = s ∨ k = 1 ∧ st t = s.turnShort)
      (fun t => (lab t).vaqReady = true) (asked st lab) 1
      (fun _ => if s.vaqValid then [s.vaqBits] else []) (fun t => (st t).state = .idle) where
  wait := by
    rintro k t (⟨rfl, h⟩ | ⟨rfl, -⟩) hk hready
    · refine ⟨.inl ⟨rfl, ?_⟩, out_of_not_ready hready⟩
      rw [hrun.step t, h, next, hstate]
      show (if s.vecCount.sle 0 then _ else _ : VRU) = _
      rw [hcount, if_neg (by simp), if_neg hready]
    · exact absurd hk (lt_irrefl 1)
  go := by
    rintro k t (⟨rfl, h⟩ | ⟨rfl, -⟩) hk hready
    · constructor
      · refine .inr ⟨rfl, ?_⟩
        rw [hrun.step t, h, next, hstate]
        show (if s.vecCount.sle 0 then _ else _ : VRU) = _
        rw [hcount, if_neg (by simp), if_pos hready]
      · rw [asked, out, h, hready, Bool.and_true]
    · exact absurd hk (lt_irrefl 1)
  leave := by
    rintro k t (⟨rfl, -⟩ | ⟨rfl, h⟩) hk
    · exact absurd hk (by decide)
    · have hstate' : s.turnShort.state = .issueShort := hstate
      constructor
      · rw [hrun.step t, h, next, hstate']
        show (if s.turnShort.vecCount.sle 0 then _ else _ : VRU).state = _
        rw [hturn]
        rfl
      · rw [asked, out, h, vaqValid, hstate', hturn]
        rfl
  busy := by
    rintro k t (⟨-, h⟩ | ⟨-, h⟩) hidle
    · rw [h, hstate] at hidle
      exact absurd hidle (by decide)
    · rw [h] at hidle
      exact absurd (hstate.symm.trans hidle) (by decide)

/-- A command taken in cycle `t` has its end after `n` cycles. -/
structure EndsAfter (st : ℕ → VRU) (t n : ℕ) : Prop where
  pos : 0 < n
  idle : (st (t + n)).state = .idle
  busy : ∀ m, 0 < m → m < n → (st (t + m)).state ≠ .idle

/-- In the cycle that takes the command nothing is asked for. -/
theorem EndsAfter.of_loop {t n : ℕ} {l : List VVAPFQEntry} (htakes : Takes (st t) (lab t))
    (hidle : (st (t + 1 + n)).state = .idle) (hbusy : ∀ m < n, ¬(st (t + 1 + m)).state = .idle)
    (hasked : emitted (asked st lab) (t + 1) n = l) :
    EndsAfter st t (n + 1) ∧ emitted (asked st lab) t (n + 1) = l := by
  refine ⟨⟨Nat.succ_pos n, ?_, ?_⟩, ?_⟩
  · rwa [Nat.add_comm n 1, ← Nat.add_assoc]
  · intro m hpos hm
    have hlast := hbusy (m - 1) (by omega)
    rwa [Nat.add_assoc, Nat.add_sub_cancel' hpos] at hlast
  · rw [emitted, hasked, asked, out, vaqValid, htakes.idle]
    rfl

section

variable (hrun : machine.Run st lab) (hready : ∀ t, ∃ u ≥ t, (lab u).vaqReady = true) {t : ℕ}
  (htakes : Takes (st t) (lab t))
include hrun hready htakes

/-- What a command with some stride asks for, with the count that it finds in the register. -/
theorem asks_held (hpos : 0 < (strideIn (lab t)).toNat) :
    ∃ n, EndsAfter st t n ∧ emitted (asked st lab) t n =
      (held (st t) (lab t)).without (held (st t) (lab t)).someDone := by
  obtain ⟨hvlen, hpfed⟩ := counts_lt _ (hrun.reachable t)
  have hcnt : (held (st t) (lab t)).cnt < 4096 := by
    rw [held]
    cases (access (st t) (lab t)).short with
    | false => exact hpfed
    | true => exact ((lab t).cnt.getD 0).isLt
  have hzero : (st (t + 1)).At (held (st t) (lab t)) 0 := by
    rw [hrun.step t]
    exact htakes.at_zero hpos hvlen
  obtain ⟨n, -, hidle, hbusy, hasked⟩ :=
    (countedLoop hrun ⟨hpos, hvlen, hcnt⟩).finishes hready hzero
  rw [← Access.without_eq_flatMap] at hasked
  exact ⟨n + 1, EndsAfter.of_loop htakes hidle hbusy hasked⟩

theorem ends_of_zero (hzero : strideIn (lab t) = 0) :
    ∃ n, EndsAfter st t n := by
  have hshort : (access (st t) (lab t)).short = true := by
    rw [Access.short, access, hzero]
    rfl
  have hnext : st (t + 1) = (st t).takeShort (lab t) := by
    rw [hrun.step t, htakes.next_eq, hshort, if_pos rfl]
  have hlobits : (strideIn (lab t)).setWidth 7 = 0 := by rw [hzero]; rfl
  have hcount : ((st t).takeShort (lab t)).vecCount = 1 := if_pos hlobits
  have hturn : ((st t).takeShort (lab t)).turnShort.vecCount = -1 := by
    have hper : ((st t).takeShort (lab t)).vecPerPf = 1 := if_pos hlobits
    have hone : ((st t).takeShort (lab t)).oneMore = true := by
      rw [oneMore, takeShort, hzero]
      rfl
    rw [turnShort, hcount, hper, hone]
    rfl
  obtain ⟨n, -, hidle, hbusy, hasked⟩ :=
    (zeroLoop hrun (s := (st t).takeShort (lab t)) rfl (by rw [hcount]; decide)
      (by rw [hturn]; decide)).finishes hready (k := 0) (.inl ⟨rfl, hnext⟩)
  exact ⟨n + 1, (EndsAfter.of_loop htakes hidle hbusy hasked).1⟩

end

/-- **The prefetcher covers the lines.** Every memory command comes to its end. A command with a
short stride, and one with a long stride that finds its own count in the register, has then asked
for its prefetches in their order, without those for an element that has been executed: without a
count, for all of them. -/
theorem prefetches (hrun : machine.Run st lab) (hready : ∀ t, ∃ u ≥ t, (lab u).vaqReady = true)
    {t : ℕ} (htakes : Takes (st t) (lab t)) : ∃ n, EndsAfter st t n ∧
      (0 < (strideIn (lab t)).toNat →
        ((access (st t) (lab t)).short = false →
          (st t).vecPfedCount.toNat = (access (st t) (lab t)).cnt) →
        emitted (asked st lab) t n =
          (access (st t) (lab t)).without (access (st t) (lab t)).someDone ∧
        ((lab t).cnt = none → emitted (asked st lab) t n =
          (List.range (access (st t) (lab t)).number).map (access (st t) (lab t)).entry)) := by
  by_cases hpos : 0 < (strideIn (lab t)).toNat
  · obtain ⟨n, hends, hasked⟩ := asks_held hrun hready htakes hpos
    refine ⟨n, hends, fun _ hcnt => ?_⟩
    have hheld : held (st t) (lab t) = access (st t) (lab t) := by
      rw [held]
      cases hshort : (access (st t) (lab t)).short with
      | false => rw [if_neg (by simp), hcnt hshort]
      | true => rfl
    rw [hheld] at hasked
    refine ⟨hasked, fun hnone => hasked.trans (Access.without_someDone_of_cnt ?_)⟩
    rw [access, hnone]
    rfl
  · have hzero : strideIn (lab t) = 0 := BitVec.eq_of_toNat_eq (Nat.eq_zero_of_not_pos hpos)
    obtain ⟨n, hends⟩ := ends_of_zero hrun hready htakes hzero
    exact ⟨n, hends, fun hc => absurd hc hpos⟩

end

/-- A `vsetvl`, then a `vld`. -/
def vldInputs (vlen : BitVec 64) (cnt : Option (BitVec 12)) : ℕ → VRUIn
  | 0 => ⟨some ⟨cmdVsetvl, 0, 0⟩, some vlen, none, none, true⟩
  | 1 => ⟨some ⟨0b10000011, 0, 0⟩, some 0x1000, none, cnt, true⟩
  | _ => ⟨none, none, none, none, true⟩

theorem vldInputs_ready (vlen : BitVec 64) (cnt : Option (BitVec 12)) (t : ℕ) :
    ∃ u ≥ t, (vldInputs vlen cnt u).vaqReady = true := by
  refine ⟨t, le_rfl, ?_⟩
  match t with
  | 0 => rfl
  | 1 => rfl
  | _ + 2 => rfl

/-- The states of the run with some inputs. -/
def states (lab : ℕ → VRUIn) : ℕ → VRU
  | 0 => reset
  | t + 1 => (states lab t).next (lab t)

theorem states_run (lab : ℕ → VRUIn) : machine.Run (states lab) lab := ⟨rfl, fun _ => rfl⟩

/-- Twenty elements of eight bytes are on three lines. -/
theorem prefetches_twenty : ∃ n, EndsAfter (states (vldInputs 20 none)) 1 n ∧
    emitted (asked (states (vldInputs 20 none)) (vldInputs 20 none)) 1 n =
      [⟨VMUFn.M_PFR, 0, 0x1000⟩, ⟨VMUFn.M_PFR, 0, 0x1040⟩, ⟨VMUFn.M_PFR, 0, 0x1080⟩] := by
  obtain ⟨n, hends, hasked⟩ := prefetches (states_run (vldInputs 20 none))
    (vldInputs_ready 20 none) (t := 1) ⟨by decide, by decide, by decide⟩
  have hall := (hasked (by decide) (fun h => absurd h (by decide))).2 rfl
  exact ⟨n, hends, hall.trans (by decide)⟩

/-- One of two elements on a line has been executed, and the line is left out. -/
theorem not_prefetches : ¬∀ {st : ℕ → VRU} {lab : ℕ → VRUIn}, machine.Run st lab →
    (∀ t, ∃ u ≥ t, (lab u).vaqReady = true) → ∀ {t : ℕ}, Takes (st t) (lab t) →
    ∃ n, EndsAfter st t n ∧ (0 < (strideIn (lab t)).toNat →
      emitted (asked st lab) t n =
        (access (st t) (lab t)).without (access (st t) (lab t)).allDone) := by
  intro h
  obtain ⟨n, hends, hasked⟩ := h (states_run (vldInputs 2 (some 1)))
    (vldInputs_ready 2 (some 1)) (t := 1) ⟨by decide, by decide, by decide⟩
  -- The command is taken in cycle 1, its only line comes up in cycle 2, and cycle 3 leaves.
  have hn : n = 3 := by
    have hpos := hends.pos
    have hidle := hends.idle
    by_contra hne
    rcases Nat.lt_or_ge n 3 with hlt | hge
    · obtain rfl | rfl : n = 1 ∨ n = 2 := by omega
      · exact absurd hidle (by decide)
      · exact absurd hidle (by decide)
    · exact hends.busy 3 (by decide) (by omega) (by decide)
  subst hn
  exact absurd (hasked (by decide)) (by decide)

end VRU

end Hwacha

end RiscvSoc
