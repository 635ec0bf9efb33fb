import Mathlib.Data.List.Basic
import Mathlib.Tactic.Ring
import RiscvSoc.Lib.Machine

/-!
# Strips of a vector operation

The sequencer keeps the operations that are under way in slots, one for every functional unit that
an operation needs. It goes around the slots. When it comes to a slot that does not have to wait, it
sends out a strip: as many elements as there are banks, or twice or four times as many for the units
that can do so in single or half precision.

Whether a strip is the last one is decided by dividing what is left of the vector by the elements of
a bank, and the division rounds down. So the last strip may be announced when there is a little more
left than a strip holds, and the rest is never done.
-/

namespace RiscvSoc

namespace Hwacha

/-- `io.cfg.prec`. -/
inductive Prec
  | double
  | single
  | half
  deriving DecidableEq

structure HwachaConfig where
  bcnt : BitVec 4
  prec : Prec

/-- The functional units of a slot. -/
structure ActiveFlags where
  viu : Bool
  vau0 : Bool
  vau1t : Bool
  vau1f : Bool
  vau2t : Bool
  vau2f : Bool
  vgu : Bool
  vcu : Bool
  vlu : Bool
  vsu : Bool
  deriving DecidableEq

namespace ActiveFlags

def none : ActiveFlags := ⟨false, false, false, false, false, false, false, false, false, false⟩

/-- The units of two writes into one slot. -/
def or (a b : ActiveFlags) : ActiveFlags where
  viu := a.viu || b.viu
  vau0 := a.vau0 || b.vau0
  vau1t := a.vau1t || b.vau1t
  vau1f := a.vau1f || b.vau1f
  vau2t := a.vau2t || b.vau2t
  vau2f := a.vau2f || b.vau2f
  vgu := a.vgu || b.vgu
  vcu := a.vcu || b.vcu
  vlu := a.vlu || b.vlu
  vsu := a.vsu || b.vsu

variable (a : ActiveFlags)

/-- `alu_active`. -/
def alu : Bool := a.viu || a.vau0 || a.vau1t || a.vau1f || a.vau2t || a.vau2f

/-- `ldst_active`. -/
def ldst : Bool := a.vlu || a.vsu

/-- `mem_active`. -/
def mem : Bool := a.vgu || a.vcu || a.ldst

/-- `active`. -/
def any : Bool := a.alu || a.mem

/-- `turbo_capable`. -/
def turbo : Bool := a.vau1t || a.vau1f || a.vlu || a.vsu

theorem or_turbo (a b : ActiveFlags) : (a.or b).turbo = (a.turbo || b.turbo) := by
  simp only [or, turbo]
  grind

theorem or_any (a b : ActiveFlags) : (a.or b).any = (a.any || b.any) := by
  simp only [or, any, alu, mem, ldst]
  grind

end ActiveFlags

/-- The kinds of operations; `sel` says which of two units of a kind is used. -/
inductive OpKind
  | viu
  | vau0
  | vau1 (sel : Bool)
  | vau2 (sel : Bool)
  | amo
  | utld
  | utst
  | vld
  | vst
  deriving DecidableEq

structure IssueOp where
  kind : OpKind
  vlen : BitVec 12

/-- A write into a slot: how far ahead the slot is, its units, and whether `turbo_last` is kept. -/
structure IssuePart where
  incr : ℕ
  active : ActiveFlags
  turboLast : Bool

/-- The slots that an operation is written to. -/
def OpKind.parts : OpKind → List IssuePart
  | .viu => [⟨1, { ActiveFlags.none with viu := true }, false⟩]
  | .vau0 => [⟨1, { ActiveFlags.none with vau0 := true }, false⟩]
  | .vau1 true => [⟨1, { ActiveFlags.none with vau1t := true }, true⟩]
  | .vau1 false => [⟨1, { ActiveFlags.none with vau1f := true }, true⟩]
  | .vau2 true => [⟨1, { ActiveFlags.none with vau2t := true }, false⟩]
  | .vau2 false => [⟨1, { ActiveFlags.none with vau2f := true }, false⟩]
  | .amo =>
    [⟨1, { ActiveFlags.none with vgu := true }, false⟩,
      ⟨2, { ActiveFlags.none with vcu := true, vsu := true }, false⟩,
      ⟨3, { ActiveFlags.none with vlu := true }, false⟩]
  | .utld =>
    [⟨1, { ActiveFlags.none with vgu := true }, false⟩,
      ⟨2, { ActiveFlags.none with vcu := true }, false⟩,
      ⟨3, { ActiveFlags.none with vlu := true }, true⟩]
  | .utst =>
    [⟨1, { ActiveFlags.none with vgu := true }, false⟩,
      ⟨2, { ActiveFlags.none with vcu := true, vsu := true }, true⟩]
  | .vld =>
    [⟨1, { ActiveFlags.none with vcu := true }, false⟩,
      ⟨2, { ActiveFlags.none with vlu := true }, false⟩]
  | .vst => [⟨1, { ActiveFlags.none with vcu := true, vsu := true }, false⟩]

theorem OpKind.any_of_mem_parts :
    ∀ kind : OpKind, ∀ part ∈ kind.parts, part.active.any = true := by
  rintro (_ | _ | (_ | _) | (_ | _) | _ | _ | _ | _ | _) <;> decide

/-! ### A slot -/

structure SeqSlot where
  valid : Bool
  vlen : BitVec 12
  last : Bool
  active : ActiveFlags

/-- What is sent out. -/
structure Strip where
  cnt : BitVec 4
  nelements : BitVec 6
  last : Bool
  deriving DecidableEq

/-- `bcnt`, as wide as a length. -/
def HwachaConfig.banks (cfg : HwachaConfig) : BitVec 12 := cfg.bcnt.setWidth 12

namespace SeqSlot

variable (cfg : HwachaConfig) (s : SeqSlot)

/-- `min`. -/
def lesser (a b : BitVec 12) : BitVec 12 := if a < b then a else b

def nstrip : BitVec 4 :=
  let strips (n : BitVec 12) : BitVec 4 := (lesser n cfg.banks).setWidth 4
  if s.active.turbo then
    match cfg.prec with
    | .double => strips s.vlen
    | .single => strips ((s.vlen + 1) >>> 1)
    | .half => strips ((s.vlen + 3) >>> 2)
  else strips s.vlen

def nelements : BitVec 6 :=
  let elements (n : BitVec 12) : BitVec 6 := (lesser s.vlen n).setWidth 6
  if s.active.turbo then
    match cfg.prec with
    | .double => elements cfg.banks
    | .single => elements (cfg.banks <<< 1)
    | .half => elements (cfg.banks <<< 2)
  else elements cfg.banks

def islast : Bool :=
  if s.active.turbo then
    match cfg.prec with
    | .double => decide (s.vlen ≤ cfg.banks)
    | .single => decide (s.vlen >>> 1 ≤ cfg.banks)
    | .half => decide (s.vlen >>> 2 ≤ cfg.banks)
  else decide (s.vlen ≤ cfg.banks)

def strip : Strip := ⟨s.nstrip cfg, s.nelements cfg, s.islast cfg⟩

/-- The slot after a write of an operation. -/
def issue (op : IssueOp) (part : IssuePart) : SeqSlot where
  valid := true
  vlen := op.vlen
  last :=
    if part.turboLast then
      match cfg.prec with
      | .double => decide (op.vlen ≤ cfg.banks)
      | .single => decide (op.vlen >>> 1 ≤ cfg.banks)
      | .half => decide (op.vlen >>> 2 ≤ cfg.banks)
    else decide (op.vlen ≤ cfg.banks)
  active := s.active.or part.active

/-- The update of a slot that sends out a strip. What it does not set is as in `new`. -/
def advance (new : SeqSlot) : SeqSlot :=
  if s.active.any then
    if s.islast cfg then ⟨false, s.vlen - (s.nelements cfg).setWidth 12, false, .none⟩
    else ⟨new.valid, s.vlen - (s.nelements cfg).setWidth 12, false, new.active⟩
  else new

end SeqSlot

/-! ### The sequencer -/

/-- `PtrIncr`. -/
def ptrIncr (ptr : BitVec 3) (incr : ℕ) (bcnt : BitVec 4) : BitVec 3 :=
  let aptr := ptr.setWidth 4 + BitVec.ofNat 4 incr
  (if aptr < bcnt then aptr else aptr - bcnt).setWidth 3

structure Sequencer where
  ptr : BitVec 3
  slots : BitVec 3 → SeqSlot

/-- The operation that is issued, and whether the slot at `ptr` has to wait. -/
structure SequencerIn where
  issueop : Option IssueOp
  stall : Bool

namespace Sequencer

variable (cfg : HwachaConfig) (s : Sequencer) (i : SequencerIn)

/-- Slot `k` is the one of this part. -/
def hits (k : BitVec 3) (part : IssuePart) : Bool := ptrIncr s.ptr part.incr cfg.bcnt == k

/-- Slot `k` is written by this operation. -/
def writes (op : IssueOp) (k : BitVec 3) : Bool := op.kind.parts.any (s.hits cfg k)

/-- The operation has units that take more elements in slot `k`. -/
def turboIn (op : IssueOp) (k : BitVec 3) : Bool :=
  op.kind.parts.any fun part => s.hits cfg k part && part.active.turbo

/-- Slot `k` after the writes of an operation. -/
def issued (op : IssueOp) (k : BitVec 3) : SeqSlot :=
  op.kind.parts.foldl (fun slot part => if s.hits cfg k part then slot.issue cfg op part else slot)
    (s.slots k)

def afterIssue (k : BitVec 3) : SeqSlot :=
  match i.issueop with
  | some op => s.issued cfg op k
  | none => s.slots k

/-- `valid`, for the slot that the sequencer has come to. -/
def emits : Bool := !i.stall && (s.slots s.ptr).valid

/-- One cycle. -/
def next : Sequencer where
  ptr := ptrIncr s.ptr 1 cfg.bcnt
  slots k :=
    if k = s.ptr ∧ s.emits i = true then (s.slots k).advance cfg (s.afterIssue cfg i k)
    else s.afterIssue cfg i k

end Sequencer

/-- The operation that was written to a slot last, and the strips since. -/
structure SlotLog where
  vlen : BitVec 12
  turbo : Bool
  strips : List Strip

namespace Sequencer

variable (cfg : HwachaConfig) (s : Sequencer) (i : SequencerIn)

/-- The log goes on. -/
def note (g : BitVec 3 → Option SlotLog) (k : BitVec 3) : Option SlotLog :=
  match i.issueop.filter fun op => s.writes cfg op k with
  | some op => some ⟨op.vlen, s.turboIn cfg op k, []⟩
  | none =>
    if k = s.ptr ∧ s.emits i = true then
      (g k).map fun e => { e with strips := e.strips ++ [(s.slots k).strip cfg] }
    else g k

/-- Reset; the lengths and the flags of the slots hold anything. -/
structure IsReset : Prop where
  ptr : s.ptr = 0
  valid : ∀ k, (s.slots k).valid = false
  active : ∀ k, (s.slots k).active = .none

/-- An operation is written to free slots only. -/
def Free : Prop := ∀ op ∈ i.issueop, ∀ k, s.writes cfg op k = true → (s.slots k).valid = false

/-- The sequencer with its log, under a configuration that does not change and behind an issue unit
that waits for free slots. -/
def machine (cfg : HwachaConfig) : Machine (Sequencer × (BitVec 3 → Option SlotLog)) SequencerIn :=
  ((Machine.clocked IsReset (next cfg)).observe (fun _ => none) (note cfg)).restrict
    fun x i => x.1.Free cfg i

end Sequencer

/-! ### What a strip is -/

/-- How many elements a bank takes in a strip. -/
def HwachaConfig.width (cfg : HwachaConfig) (turbo : Bool) : ℕ :=
  if turbo then
    match cfg.prec with
    | .double => 1
    | .single => 2
    | .half => 4
  else 1

/-- How many elements a full strip has. -/
def HwachaConfig.size (cfg : HwachaConfig) (turbo : Bool) : ℕ := cfg.width turbo * cfg.bcnt.toNat

/-- The vector does not end with a few elements after full strips, fewer than a bank takes. -/
def NoRest (cfg : HwachaConfig) (turbo : Bool) (vlen : BitVec 12) : Prop :=
  vlen.toNat ≤ cfg.size turbo ∨ vlen.toNat % cfg.size turbo = 0 ∨
    cfg.width turbo ≤ vlen.toNat % cfg.size turbo

namespace SeqSlot

variable {cfg : HwachaConfig} {s : SeqSlot}

theorem toNat_lesser (a b : BitVec 12) : (lesser a b).toNat = min a.toNat b.toNat := by
  rw [lesser]
  split
  · rename_i h
    exact (min_eq_left (le_of_lt (show a.toNat < b.toNat from h))).symm
  · rename_i h
    exact (min_eq_right (not_lt.mp (show ¬ a.toNat < b.toNat from h))).symm

theorem toNat_banks : cfg.banks.toNat = cfg.bcnt.toNat := by
  rw [HwachaConfig.banks, BitVec.toNat_setWidth]
  exact Nat.mod_eq_of_lt (cfg.bcnt.isLt.trans (by decide))

theorem toNat_banks_shift {k : ℕ} (hk : k ≤ 2) :
    (cfg.banks <<< k).toNat = 2 ^ k * cfg.bcnt.toNat := by
  have hlt := cfg.bcnt.isLt
  have hpow : 2 ^ k ≤ 2 ^ 2 := Nat.pow_le_pow_right (by decide) hk
  have hmul : 2 ^ k * cfg.bcnt.toNat ≤ 4 * 15 := Nat.mul_le_mul hpow (by omega)
  rw [BitVec.toNat_shiftLeft, Nat.shiftLeft_eq, toNat_banks, Nat.mul_comm]
  exact Nat.mod_eq_of_lt (hmul.trans_lt (by decide))

theorem toNat_nelements :
    (s.nelements cfg).toNat = min s.vlen.toNat (cfg.size s.active.turbo) := by
  have hb := cfg.bcnt.isLt
  have hstrip : ∀ n : BitVec 12, n.toNat ≤ 60 →
      ((lesser s.vlen n).setWidth 6).toNat = min s.vlen.toNat n.toNat := by
    intro n hn
    rw [BitVec.toNat_setWidth, toNat_lesser]
    exact Nat.mod_eq_of_lt (lt_of_le_of_lt (min_le_right _ _) (by omega))
  have hone : (cfg.banks <<< 1).toNat = 2 * cfg.bcnt.toNat := toNat_banks_shift (by decide)
  have htwo : (cfg.banks <<< 2).toNat = 4 * cfg.bcnt.toNat := toNat_banks_shift (by decide)
  have hbanks : cfg.banks.toNat = cfg.bcnt.toNat := toNat_banks
  rw [nelements, HwachaConfig.size, HwachaConfig.width]
  cases s.active.turbo with
  | false => simp only [Bool.false_eq_true, if_false, hstrip _ (by omega : cfg.banks.toNat ≤ 60),
      hbanks, Nat.one_mul]
  | true =>
    cases cfg.prec with
    | double => simp only [if_true, hstrip _ (by omega : cfg.banks.toNat ≤ 60), hbanks, Nat.one_mul]
    | single => simp only [if_true, hstrip _ (by omega : (cfg.banks <<< 1).toNat ≤ 60), hone]
    | half => simp only [if_true, hstrip _ (by omega : (cfg.banks <<< 2).toNat ≤ 60), htwo]

/-- The last strip is announced when there is less left than a strip and what a bank takes. -/
theorem islast_iff : s.islast cfg = true ↔
    s.vlen.toNat < cfg.size s.active.turbo + cfg.width s.active.turbo := by
  have hbanks : cfg.banks.toNat = cfg.bcnt.toNat := toNat_banks
  have hone : (s.vlen >>> 1).toNat = s.vlen.toNat / 2 := by
    rw [BitVec.toNat_ushiftRight, Nat.shiftRight_eq_div_pow, pow_one]
  have htwo : (s.vlen >>> 2).toNat = s.vlen.toNat / 4 := by
    rw [BitVec.toNat_ushiftRight, Nat.shiftRight_eq_div_pow]
  rw [islast, HwachaConfig.size, HwachaConfig.width]
  cases s.active.turbo with
  | false =>
    simp only [Bool.false_eq_true, if_false, decide_eq_true_eq, BitVec.le_def, hbanks]
    omega
  | true =>
    cases cfg.prec <;> simp only [if_true, decide_eq_true_eq, BitVec.le_def, hbanks, hone, htwo] <;>
      omega

theorem toNat_sub_nelements : (s.vlen - (s.nelements cfg).setWidth 12).toNat =
    s.vlen.toNat - min s.vlen.toNat (cfg.size s.active.turbo) := by
  have hn : (s.nelements cfg).toNat = min s.vlen.toNat (cfg.size s.active.turbo) :=
    toNat_nelements
  have hwide : ((s.nelements cfg).setWidth 12).toNat =
      min s.vlen.toNat (cfg.size s.active.turbo) := by
    rw [BitVec.toNat_setWidth, hn]
    exact Nat.mod_eq_of_lt (lt_of_le_of_lt (min_le_left _ _) s.vlen.isLt)
  have hle : min s.vlen.toNat (cfg.size s.active.turbo) ≤ s.vlen.toNat := min_le_left _ _
  have hlt := s.vlen.isLt
  rw [BitVec.toNat_sub, hwide]
  omega

end SeqSlot

theorem HwachaConfig.width_le_size {cfg : HwachaConfig} (hb : 0 < cfg.bcnt.toNat) (turbo : Bool) :
    cfg.width turbo ≤ cfg.size turbo :=
  Nat.le_mul_of_pos_right _ hb

theorem HwachaConfig.width_pos (cfg : HwachaConfig) (turbo : Bool) : 0 < cfg.width turbo := by
  rw [width]
  split
  · split <;> decide
  · decide

/-! ### The strips of a slot -/

/-- How many elements the strips have. -/
def elements (strips : List Strip) : ℕ := (strips.map fun r => r.nelements.toNat).sum

theorem elements_append (l : List Strip) (r : Strip) :
    elements (l ++ [r]) = elements l + r.nelements.toNat := by
  rw [elements, List.map_append, List.sum_append]
  rfl

/-- While an operation is under way, its strips are full, and there are at least as many elements
left as a bank takes. -/
structure Underway (cfg : HwachaConfig) (s : SeqSlot) (e : SlotLog) : Prop where
  turbo : s.active.turbo = e.turbo
  vlen : 0 < s.vlen.toNat
  sum : elements e.strips + s.vlen.toNat = e.vlen.toNat
  last : ∀ r ∈ e.strips, r.last = false
  full : ∃ m, elements e.strips = m * cfg.size e.turbo ∧ (m = 0 ∨ cfg.width e.turbo ≤ s.vlen.toNat)

/-- When it is done, only its last strip says so, and the elements are all there unless there was a
rest. -/
structure Done (cfg : HwachaConfig) (s : SeqSlot) (e : SlotLog) : Prop where
  last : ∃ l r, e.strips = l ++ [r] ∧ r.last = true ∧ ∀ r ∈ l, r.last = false
  vlen : elements e.strips + s.vlen.toNat = e.vlen.toNat
  iff : elements e.strips = e.vlen.toNat ↔ NoRest cfg e.turbo e.vlen

variable {cfg : HwachaConfig} {s : SeqSlot} {e : SlotLog}

/-- The log after one more strip. -/
def SlotLog.emit (e : SlotLog) (r : Strip) : SlotLog := { e with strips := e.strips ++ [r] }

theorem Underway.step (hb : 0 < cfg.bcnt.toNat) (h : Underway cfg s e)
    (hlast : s.islast cfg = false) {s' : SeqSlot} (hactive : s'.active = s.active)
    (hvlen : s'.vlen = s.vlen - (s.nelements cfg).setWidth 12) :
    Underway cfg s' (e.emit (s.strip cfg)) ∧ s'.vlen.toNat < s.vlen.toNat := by
  obtain ⟨hturbo, hpos, hsum, hnone, m, hm, -⟩ := h
  have hnot : ¬ s.islast cfg = true := by rw [hlast]; exact Bool.false_ne_true
  rw [SeqSlot.islast_iff, hturbo, not_lt] at hnot
  have hw := cfg.width_pos e.turbo
  have hsize := lt_of_lt_of_le hw (HwachaConfig.width_le_size hb e.turbo)
  have hmin : min s.vlen.toNat (cfg.size e.turbo) = cfg.size e.turbo := min_eq_right (by omega)
  have hnel : (s.strip cfg).nelements.toNat = cfg.size e.turbo := by
    rw [SeqSlot.strip, SeqSlot.toNat_nelements, hturbo, hmin]
  have hleft : s'.vlen.toNat = s.vlen.toNat - cfg.size e.turbo := by
    rw [hvlen, SeqSlot.toNat_sub_nelements, hturbo, hmin]
  have hsum' : elements (e.emit (s.strip cfg)).strips = elements e.strips + cfg.size e.turbo := by
    rw [SlotLog.emit, elements_append, hnel]
  refine ⟨⟨?_, by omega, ?_, ?_, m + 1, ?_, .inr ?_⟩, by omega⟩
  · rw [hactive]
    exact hturbo
  · show elements (e.emit (s.strip cfg)).strips + s'.vlen.toNat = e.vlen.toNat
    omega
  · intro r hr
    rcases List.mem_append.mp hr with hr | hr
    · exact hnone r hr
    · rw [List.mem_singleton.mp hr]
      exact hlast
  · show elements (e.emit (s.strip cfg)).strips = (m + 1) * cfg.size e.turbo
    rw [hsum', hm, Nat.succ_mul]
  · show cfg.width e.turbo ≤ s'.vlen.toNat
    omega

theorem rest_iff {size width vlen left m : ℕ} (hws : width ≤ size)
    (hlt : left < size + width) (hsum : m * size + left = vlen) (hm : m = 0 ∨ width ≤ left) :
    left ≤ size ↔ vlen ≤ size ∨ vlen % size = 0 ∨ width ≤ vlen % size := by
  constructor
  · intro hle
    rcases hle.lt_or_eq with hl | rfl
    · have hmod : vlen % size = left := by
        rw [← hsum, Nat.add_comm, Nat.add_mul_mod_self_right, Nat.mod_eq_of_lt hl]
      rcases hm with rfl | hm
      · omega
      · exact .inr (.inr (by omega))
    · refine .inr (.inl ?_)
      rw [← hsum, ← Nat.succ_mul, Nat.mul_mod_left]
  · intro h
    by_contra hgt
    have hmod : vlen % size = left - size := by
      have heq : vlen = left - size + (m + 1) * size := by
        rw [Nat.succ_mul]
        omega
      rw [heq, Nat.add_mul_mod_self_right, Nat.mod_eq_of_lt (by omega)]
    have hvlen : size < vlen := by omega
    omega

theorem Underway.done (hb : 0 < cfg.bcnt.toNat) (h : Underway cfg s e)
    (hlast : s.islast cfg = true) {s' : SeqSlot}
    (hvlen : s'.vlen = s.vlen - (s.nelements cfg).setWidth 12) :
    Done cfg s' (e.emit (s.strip cfg)) := by
  obtain ⟨hturbo, -, hsum, hnone, m, hm, hfull⟩ := h
  have hlt := SeqSlot.islast_iff.mp hlast
  rw [hturbo] at hlt
  have hnel : (s.strip cfg).nelements.toNat = min s.vlen.toNat (cfg.size e.turbo) := by
    rw [SeqSlot.strip, SeqSlot.toNat_nelements, hturbo]
  have hleft : s'.vlen.toNat = s.vlen.toNat - min s.vlen.toNat (cfg.size e.turbo) := by
    rw [hvlen, SeqSlot.toNat_sub_nelements, hturbo]
  have hsum' : elements (e.emit (s.strip cfg)).strips =
      elements e.strips + min s.vlen.toNat (cfg.size e.turbo) := by
    rw [SlotLog.emit, elements_append, hnel]
  have hmin : min s.vlen.toNat (cfg.size e.turbo) ≤ s.vlen.toNat := min_le_left _ _
  refine ⟨⟨e.strips, s.strip cfg, rfl, hlast, hnone⟩, ?_, ?_⟩
  · show elements (e.emit (s.strip cfg)).strips + s'.vlen.toNat = e.vlen.toNat
    omega
  · show elements (e.emit (s.strip cfg)).strips = e.vlen.toNat ↔ NoRest cfg e.turbo e.vlen
    have hrest := rest_iff (HwachaConfig.width_le_size hb e.turbo) hlt (hm ▸ hsum) hfull
    rw [NoRest, ← hrest, hsum']
    omega

end Hwacha

end RiscvSoc
