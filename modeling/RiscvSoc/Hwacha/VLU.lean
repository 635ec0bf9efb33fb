import RiscvSoc.Hwacha.Deck
import RiscvSoc.Hwacha.LaneFMA
import RiscvSoc.Hwacha.RegisterAlloc
import RiscvSoc.Hwacha.VMUMem
import RiscvSoc.Lib.SlidingWindow

/-!
# Loaded elements on their way to the banks

The memory returns the elements of a vector load in any order. `VLU` puts each of them into the
write queue of the bank of its microthread. When the bank takes it from there, a bit is set for it
in `bw_stat`, which is about the next 128 elements from `op.utidx` on. The sequencer counts a strip
of elements when the first of these bits are set, of which at most eight are looked at. It then
moves `op.utidx` on, and the bits with it.

Of the sequencer and the memory unit only what they promise is here. The sequencer asks the memory
for the elements of a strip when `MRTLoadRetireCounter` has room for them, and it does so before it
counts them. A response is about an element that was asked for, and it comes when `VLU` has taken
the operation: `Hazard` does not issue a second load, or an atomic, before the last strip of the
first one is counted.
-/

namespace RiscvSoc

namespace Hwacha

open SlidingWindow

structure BWQInternalEntry where
  addr : BitVec 8
  data : BitVec 66
  tag : BitVec 9

/-- The strides of `io.cfg`. -/
structure Strides where
  xstride : BitVec 6
  fstride : BitVec 6

/-- What the user of a `LookAheadPortIO` says. -/
structure LookAhead where
  cnt : BitVec 8
  reserve : Bool

/-- `vd_bank_id`. -/
def VLDQEntry.bank (e : VLDQEntry) : Fin 8 := (e.info.utidx.extractLsb' 0 3).toFin

/-- `vd_bank_ut`, which is `bw_stat_idx`, too. -/
def VLDQEntry.bankUt (e : VLDQEntry) : BitVec 9 := e.info.utidx.extractLsb' 3 9

structure VLU where
  busy : Bool
  op : Issue.DeckOp
  bwqs : Fin 8 → Queue BWQInternalEntry 2
  bwStat : BitVec 128

structure VLUIn where
  cfg : Strides
  op : Option Issue.DeckOp
  ldata : Option VLDQEntry
  bwqsReady : Fin 8 → Bool
  la : LookAhead

namespace VLU

/-! ### What is written -/

/-- `bw_data`. -/
def bwData (op : Issue.DeckOp) (ldData : BitVec 64) : BitVec 66 :=
  if !op.fn.float then ldData.setWidth 66
  else if op.fn.typ = VMUFn.MT_D then Issue.packFloatD (Issue.encodeDp ldData)
  else if op.fn.typ = VMUFn.MT_W then Issue.packFloatS (Issue.encodeSp ldData)
  else if op.fn.typ = VMUFn.MT_H then Compaction.packFloatH (ldData.setWidth 16)
  else 0

/-- `vd_stride`. -/
def vdStride (op : Issue.DeckOp) (cfg : Strides) : BitVec 6 :=
  if op.reg.vd.float then cfg.fstride else cfg.xstride

/-- `vd_addr`, before it is cut to the width of a row. -/
def vdAddr (op : Issue.DeckOp) (cfg : Strides) (e : VLDQEntry) : BitVec 15 :=
  e.bankUt.setWidth 15 * (vdStride op cfg).setWidth 15 + op.reg.vd.id.setWidth 15

def bwEntry (op : Issue.DeckOp) (cfg : Strides) (e : VLDQEntry) : BWQInternalEntry where
  addr := (vdAddr op cfg e).setWidth 8
  data := bwData op e.data
  tag := e.bankUt

/-! ### One cycle -/

section

variable (s : VLU) (i : VLUIn)

def utidxNext : BitVec 12 := s.op.utidx + i.la.cnt.setWidth 12

/-- `bwq.io`, of bank `b`. -/
def bwqIn (b : Fin 8) : QueueInput BWQInternalEntry where
  enq := (i.ldata.filter fun e => e.bank = b).map (bwEntry s.op i.cfg)
  deqReady := i.bwqsReady b

/-- `vldq.ready`. -/
def vldqReady (e : VLDQEntry) : Bool := (s.bwqs e.bank).enqReady false (s.bwqIn i e.bank)

/-- What it takes from the memory unit. -/
def loaded : Option VLDQEntry := i.ldata.filter (s.vldqReady i)

/-- What bank `b` takes. -/
def written (b : Fin 8) : Option BWQInternalEntry :=
  if i.bwqsReady b then (s.bwqs b).deq false (s.bwqIn i b) else none

def bwStatUpdate (b : Fin 8) : BitVec 128 :=
  match s.written i b with
  | some w => 1 <<< ((w.tag ++ BitVec.ofNat 3 b : BitVec (9 + 3)) - s.op.utidx).toNat
  | none => 0

def bwStatNext : BitVec 128 :=
  (List.finRange 8).foldl (fun st b => st ||| s.bwStatUpdate i b) s.bwStat

/-- `bw_stat_shift`. -/
def bwStatShift : ℕ := if i.la.reserve then (i.la.cnt.setWidth 4).toNat else 0

/-- One cycle. The status is what is chosen of nine shifts, and nothing while there is no load. -/
def step : VLU where
  busy :=
    if s.busy then !(i.la.reserve && decide (s.utidxNext i = s.op.vlen))
    else i.op.isSome
  op :=
    if s.busy then if i.la.reserve then { s.op with utidx := s.utidxNext i } else s.op
    else i.op.getD s.op
  bwqs b := (s.bwqs b).next false false (s.bwqIn i b)
  bwStat :=
    if s.busy then if bwStatShift i ≤ 8 then s.bwStatNext i >>> bwStatShift i else 0
    else 0

/-- The limited leading-ones count. -/
def locnt : ℕ := (leadingOnes s.bwStat.getLsbD 8).1

/-- `io.la.available`, for a strip of `cnt` elements. -/
def available (cnt : BitVec 8) : Bool := decide (cnt.toNat ≤ s.locnt)

/-- Reset; the status and the operation are anything. -/
structure IsReset : Prop where
  busy : s.busy = false
  bwqs : ∀ b, (s.bwqs b).IsReset

/-! ### The unit of the deck -/

/-- An operation as the deck sees it. -/
def deckOp (op : Issue.DeckOp) : DeckOp := ⟨op.vlen, op.utidx, op.fn.toVMUFn⟩

def dataUnit : DataUnit := ⟨s.busy, deckOp s.op⟩

/-- **The state machine is the one of the deck.** -/
theorem dataUnit_step : (s.step i).dataUnit =
    VLU.next s.dataUnit (i.op.map deckOp) i.la.reserve (i.la.cnt.setWidth 12) := by
  rw [dataUnit, dataUnit, step, VLU.next]
  cases hbusy : s.busy with
  | false => cases hop : i.op <;> rfl
  | true =>
    cases hres : i.la.reserve with
    | false => rfl
    | true =>
      show DataUnit.mk (!(true && decide (s.utidxNext i = s.op.vlen))) _ =
        DataUnit.mk (s.utidxNext i != s.op.vlen) _
      rw [Bool.true_and, bne, beq_eq_decide]
      rfl

end

/-! ### Places -/

variable (e : VLDQEntry)

theorem bank_val : e.bank.val = e.info.utidx.toNat % 8 := by
  show (e.info.utidx.extractLsb' 0 3).toNat = _
  rw [BitVec.extractLsb'_toNat]
  rfl

theorem toNat_bankUt : e.bankUt.toNat = e.info.utidx.toNat / 8 := by
  have hlt := e.info.utidx.isLt
  rw [VLDQEntry.bankUt, BitVec.extractLsb'_toNat, Nat.shiftRight_eq_div_pow]
  exact Nat.mod_eq_of_lt (by omega)

theorem utidx_eq : 8 * e.bankUt.toNat + e.bank.val = e.info.utidx.toNat := by
  rw [toNat_bankUt, bank_val]
  exact Nat.div_add_mod e.info.utidx.toNat 8

/-- **The row is the one in which the sequencer has the microthread**, after as many strips. -/
theorem bwEntry_row (op : Issue.DeckOp) (cfg : Strides) (e : VLDQEntry) :
    (bwEntry op cfg e).addr =
      (· + (vdStride op cfg).setWidth 8)^[e.info.utidx.toNat / 8] op.reg.vd.id := by
  have hut := toNat_bankUt e
  have hrow := e.bankUt.isLt
  have hstride := (vdStride op cfg).isLt
  have hid := op.reg.vd.id.isLt
  refine BitVec.eq_of_toNat_eq ?_
  rw [toNat_iterate_add, ← hut]
  show ((vdAddr op cfg e).setWidth 8).toNat = _
  rw [vdAddr]
  have hmul : e.bankUt.toNat * (vdStride op cfg).toNat ≤ 511 * 63 :=
    Nat.mul_le_mul (Nat.le_of_lt_succ hrow) (Nat.le_of_lt_succ hstride)
  rw [BitVec.toNat_setWidth, BitVec.toNat_add, BitVec.toNat_mul, BitVec.toNat_setWidth,
    BitVec.toNat_setWidth, BitVec.toNat_setWidth, BitVec.toNat_setWidth,
    Nat.mod_eq_of_lt (show (vdStride op cfg).toNat < 2 ^ 15 by omega),
    Nat.mod_eq_of_lt (show (vdStride op cfg).toNat < 2 ^ 8 by omega),
    Nat.mod_eq_of_lt (show e.bankUt.toNat < 2 ^ 15 by omega),
    Nat.mod_eq_of_lt (show op.reg.vd.id.toNat < 2 ^ 15 by omega), Nat.mod_add_mod,
    Nat.mod_mod_of_dvd _ (by decide), Nat.add_comm]

end VLU

/-! ### The counter of outstanding loads -/

structure MRTLoadRetireCounter where
  count : BitVec 8

namespace MRTLoadRetireCounter

variable (c : MRTLoadRetireCounter)

/-- One cycle: the elements that are asked for, and the ones that are counted. -/
def next (la ret : LookAhead) : MRTLoadRetireCounter where
  count :=
    if la.reserve then if ret.reserve then c.count - la.cnt + ret.cnt else c.count - la.cnt
    else if ret.reserve then c.count + ret.cnt
    else c.count

/-- `io.la.available`. -/
def available (cnt : BitVec 8) : Bool := decide (cnt ≤ c.count)

end MRTLoadRetireCounter

structure LoadPath where
  vlu : VLU
  lcnt : MRTLoadRetireCounter

structure LoadPathIn extends VLUIn where
  /-- `io.lreq` of the sequencer. -/
  lreq : LookAhead

/-! ### The log -/

/-- One load: the operation as it was taken, the elements that were returned for it, with the
strides that were set then, and what the banks took. -/
structure LoadRecord where
  op : Issue.DeckOp
  loaded : List (Strides × VLDQEntry)
  written : Fin 8 → List BWQInternalEntry

namespace LoadRecord

variable (r : LoadRecord)

def first : ℕ := r.op.utidx.toNat

def last : ℕ := r.op.vlen.toNat

/-- The elements that were returned. -/
def elements : List ℕ := r.loaded.map fun e => e.2.info.utidx.toNat

/-- What is to be written to bank `b` for them. -/
def returned (b : Fin 8) : List BWQInternalEntry :=
  (r.loaded.filter fun e => e.2.bank = b).map fun e => VLU.bwEntry r.op e.1 e.2

/-- The bank of element `k` took it. -/
def Written (k : ℕ) : Prop := ∃ b, ∃ w ∈ r.written b, 8 * w.tag.toNat + b.val = k

/-- The log goes on. -/
def note (cfg : Strides) (loaded : Option VLDQEntry)
    (written : Fin 8 → Option BWQInternalEntry) : LoadRecord where
  op := r.op
  loaded := r.loaded ++ (loaded.map fun e => (cfg, e)).toList
  written b := r.written b ++ (written b).toList

/-- Every element was returned once, and was written. -/
structure Complete : Prop where
  nodup : r.elements.Nodup
  elements : ∀ k, k ∈ r.elements ↔ r.first ≤ k ∧ k < r.last
  written : ∀ b, r.written b = r.returned b

end LoadRecord

/-- How many elements were asked for that are not of a finished load, and the loads, the last one
first. -/
structure LoadLog where
  asked : ℕ
  records : List LoadRecord

namespace LoadPath

/-- The elements of the load that are counted. -/
def counted (s : VLU) (g : LoadLog) : ℕ :=
  match g.records with
  | r :: _ => if s.busy then s.op.utidx.toNat - r.first else 0
  | [] => 0

/-- The last strip of a load is counted. -/
def finishes (s : VLU) (i : VLUIn) : Bool :=
  s.busy && i.la.reserve && decide (s.utidxNext i = s.op.vlen)

section

variable (s : LoadPath) (i : LoadPathIn)

def next : LoadPath where
  vlu := s.vlu.step i.toVLUIn
  lcnt := s.lcnt.next i.lreq i.la

def noteRecords (records : List LoadRecord) : List LoadRecord :=
  if s.vlu.busy then
    match records with
    | r :: past => r.note i.cfg (s.vlu.loaded i.toVLUIn) (s.vlu.written i.toVLUIn) :: past
    | [] => []
  else
    match i.op with
    | some op => ⟨op, [], fun _ => []⟩ :: records
    | none => records

def note (g : LoadLog) : LoadLog where
  asked :=
    g.asked + (if i.lreq.reserve then i.lreq.cnt.toNat else 0) -
      (if finishes s.vlu i.toVLUIn then counted s.vlu g + i.la.cnt.toNat else 0)
  records := s.noteRecords i g.records

/-- Reset. -/
structure IsReset : Prop where
  vlu : s.vlu.IsReset
  lcnt : s.lcnt.count = 128

def machine : Machine (LoadPath × LoadLog) LoadPathIn :=
  (Machine.clocked IsReset next).observe ⟨0, []⟩ note

end

/-! ### What the others keep to -/

/-- The promise of the sequencer and of the memory unit. -/
structure Promise (x : LoadPath × LoadLog) (i : LoadPathIn) : Prop where
  /-- A load has elements. -/
  op : ∀ op ∈ i.op, op.utidx < op.vlen
  /-- `vcu_stall`. -/
  lreq : i.lreq.reserve = true → x.1.lcnt.available i.lreq.cnt = true
  /-- `vlu_stall`: a strip of elements that were asked for, not beyond the end of the load. -/
  strip : i.la.reserve = true → x.1.vlu.available i.la.cnt = true ∧ 0 < i.la.cnt ∧
    counted x.1.vlu x.2 + i.la.cnt.toNat ≤ x.2.asked ∧
    (x.1.vlu.busy = true → x.1.vlu.op.utidx.toNat + i.la.cnt.toNat ≤ x.1.vlu.op.vlen.toNat)
  /-- A response is about an element of the load that was asked for, and is the first one. -/
  ldata : ∀ e ∈ i.ldata, x.1.vlu.busy = true ∧ ∀ r ∈ x.2.records.head?,
    r.first ≤ e.info.utidx.toNat ∧ e.info.utidx.toNat < r.last ∧
      e.info.utidx.toNat < r.first + x.2.asked ∧ e.info.utidx.toNat ∉ r.elements

end LoadPath

end Hwacha

end RiscvSoc
