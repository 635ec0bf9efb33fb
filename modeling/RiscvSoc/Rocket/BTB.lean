import Mathlib.Algebra.Group.Fin.Basic
import RiscvSoc.Lib.Bits
import RiscvSoc.Lib.Encoder
import RiscvSoc.Lib.Machine

/-!
# The branch target buffer

`BTB` from `rocket/src/main/scala/btb.scala`. An entry has the offset of a branch and the offset of
its target; their pages are in a table that all entries share, and the entry has the numbers of the
two pages. An update with a new target writes one entry and up to two pages. The page of the branch
and the page of the target go to neighbours in the table, so that one is in an even place and the
other in an odd one. Entries whose pages are replaced become invalid in the same cycle.

An update comes a cycle late, and what it writes as the target is the address that is looked up in
that cycle.

## What is left out

The prediction of the direction (`BHT`), with `isJump`, and the registers of the return-address
stack, of which only matters what it puts forward.
-/

namespace RiscvSoc

open Bits

/-! ### Configuration -/

structure BTBConfig where
  vaddrBits : ℕ
  matchBits : ℕ
  entries : ℕ

namespace BTBConfig

variable (c : BTBConfig)

/-- `pages0`. -/
def pages0 : ℕ := max 1 (log2Up c.entries)

/-- An even number of pages. -/
def pages : ℕ := (c.pages0 + 1) / 2 * 2

theorem two_le_pages : 2 ≤ c.pages := by
  have hpos : 1 ≤ c.pages0 := Nat.le_max_left 1 _
  rw [pages]
  omega

theorem even_pages : c.pages % 2 = 0 := Nat.mul_mod_left _ 2

instance instNeZeroPages : NeZero c.pages := ⟨(Nat.two_pos.trans_le c.two_le_pages).ne'⟩

end BTBConfig

/-- `Counter`: what comes after `k` when it counts. -/
def counterNext (n k : ℕ) : ℕ :=
  if ¬n.isPowerOfTwo ∧ k = n - 1 then 0 else (k + 1) % 2 ^ log2Up n

/-! ### State -/

/-- `BTBUpdate`; of the prediction only `valid` and `entry`. -/
structure BTBUpdate (c : BTBConfig) where
  predValid : Bool
  predEntry : BitVec (log2Up c.entries)
  pc : BitVec c.vaddrBits
  isReturn : Bool
  incorrectTarget : Bool

structure BTB (c : BTBConfig) where
  idxValid : Fin c.entries → Bool
  idxs : Fin c.entries → ℕ
  idxPages : Fin c.entries → ℕ
  tgts : Fin c.entries → ℕ
  tgtPages : Fin c.entries → ℕ
  useRAS : Fin c.entries → Bool
  pages : Fin c.pages → ℕ
  pageValid : Fin c.pages → Bool
  /-- `update`, behind a pipe. -/
  updateValidReg : Bool
  update : BTBUpdate c
  nextRepl : ℕ
  nextPageRepl : ℕ

structure BTBIn (c : BTBConfig) where
  req : BitVec c.vaddrBits
  update : Option (BTBUpdate c)
  invalidate : Bool
  /-- What the return-address stack puts forward. -/
  rasTop : Option (BitVec c.vaddrBits)

namespace BTB

variable {c : BTBConfig} (s : BTB c) (i : BTBIn c)

/-! ### Matching -/

def page (addr : BitVec c.vaddrBits) : ℕ := addr.toNat >>> c.matchBits

/-- `addr(conf.matchBits-1,0)`. -/
def offset (addr : BitVec c.vaddrBits) : ℕ := addr.toNat % 2 ^ c.matchBits

def idxPagesOH (e : Fin c.entries) (p : Fin c.pages) : Bool := decide (s.idxPages e = p)

def tgtPagesOH (e : Fin c.entries) (p : Fin c.pages) : Bool := decide (s.tgtPages e = p)

def pageMatch (addr : BitVec c.vaddrBits) (p : Fin c.pages) : Bool :=
  s.pages p == page addr && s.pageValid p

def tagMatch (addr : BitVec c.vaddrBits) (pgMatch : Fin c.pages → Bool)
    (e : Fin c.entries) : Bool :=
  s.idxValid e && s.idxs e == offset addr && orR fun p => s.idxPagesOH e p && pgMatch p

def pageHit : Fin c.pages → Bool := s.pageMatch i.req

def hits : Fin c.entries → Bool := s.tagMatch i.req (s.pageHit i)

def updatePageHit : Fin c.pages → Bool := s.pageMatch s.update.pc

/-- Nobody looks at these. -/
def updateHits : Fin c.entries → Bool := s.tagMatch s.update.pc s.updatePageHit

/-! ### Where an update goes -/

def updateHit : Bool := s.update.predValid

/-- The number of two-bit counters is never zero. -/
def updateValid : Bool := s.update.incorrectTarget || s.updateHit

def updateTarget : Bool := s.updateValid && s.update.incorrectTarget

def useUpdatePageHit : Bool := orR s.updatePageHit

def doIdxPageRepl : Bool := s.updateTarget && !s.useUpdatePageHit

def idxPageRepl (p : Fin c.pages) : Bool := decide (s.nextPageRepl = p)

def idxPageUpdateOH (p : Fin c.pages) : Bool :=
  if s.useUpdatePageHit then s.updatePageHit p else s.idxPageRepl p

def idxPageReplEn (p : Fin c.pages) : Bool := s.doIdxPageRepl && s.idxPageRepl p

def samePage : Bool := page s.update.pc == page i.req

def usePageHit : Bool := orR fun p => s.pageHit i p && !s.idxPageReplEn p

def doTgtPageRepl : Bool := s.updateTarget && !s.samePage i && !s.usePageHit i

/-- The same place, or the one after it. -/
def tgtPageRepl (p : Fin c.pages) : Bool :=
  if s.samePage i then s.idxPageUpdateOH p else s.idxPageUpdateOH (p - 1)

def tgtPageUpdateOH (p : Fin c.pages) : Bool :=
  if s.usePageHit i then s.pageHit i p else s.tgtPageRepl i p

def tgtPageReplEn (p : Fin c.pages) : Bool := s.doTgtPageRepl i && s.tgtPageRepl i p

def pageReplEn (p : Fin c.pages) : Bool := s.idxPageReplEn p || s.tgtPageReplEn i p

/-- The update is one that writes. -/
def writes : Bool := s.updateValidReg && !(s.updateValid && !s.updateTarget)

def waddr : ℕ := if s.updateHit then s.update.predEntry.toNat else s.nextRepl

/-- A page of the entry is replaced. -/
def replaced (e : Fin c.entries) : Bool :=
  orR fun p => s.pageReplEn i p && (s.idxPagesOH e p || s.tgtPagesOH e p)

/-! ### The answer -/

def respValid : Bool := orR (s.hits i)

/-- `Mux1H(hits, tgtPagesOH)`. -/
def tgtPageSel (p : Fin c.pages) : Bool :=
  orR fun e => (s.hits i e || decide (c.entries = 1)) && s.tgtPagesOH e p

def tableTarget : BitVec c.vaddrBits :=
  BitVec.ofNat _ (mux1H (s.tgtPageSel i) s.pages * 2 ^ c.matchBits + mux1H (s.hits i) s.tgts)

/-- `Mux1H(hits, useRAS)`. -/
def doPeek : Bool := orR fun e => (s.hits i e || decide (c.entries = 1)) && s.useRAS e

def respTarget : BitVec c.vaddrBits :=
  if s.doPeek i then i.rasTop.getD (s.tableTarget i) else s.tableTarget i

def respEntry : ℕ := ohIndex (s.hits i)

/-! ### One cycle -/

def idxWritesEven : Bool := orR fun p : Fin c.pages =>
    s.idxPageUpdateOH p && decide ((p : ℕ) % 2 = 0)

/-- `writeBank`: whether the bank of this place writes. -/
def bankEn (p : Fin c.pages) : Bool :=
  if (p : ℕ) % 2 = 0 then if s.idxWritesEven then s.doIdxPageRepl else s.doTgtPageRepl i
  else if s.idxWritesEven then s.doTgtPageRepl i else s.doIdxPageRepl

/-- And what. -/
def bankData (p : Fin c.pages) : ℕ :=
  if (p : ℕ) % 2 = 0 then if s.idxWritesEven then page s.update.pc else page i.req
  else if s.idxWritesEven then page i.req else page s.update.pc

/-- The place gets a new page. -/
def pageWen (p : Fin c.pages) : Bool := s.writes && s.bankEn i p && s.pageReplEn i p

/-- The entry gets a new target. -/
def entryWen (e : Fin c.entries) : Bool := s.writes && decide (s.waddr = e) && s.updateTarget

/-- One cycle. -/
def next : BTB c where
  idxValid e :=
    !i.invalidate &&
      if s.writes then
        if s.waddr = e then s.updateValid else s.idxValid e && !s.replaced i e
      else s.idxValid e
  idxs e := if s.entryWen e then offset s.update.pc else s.idxs e
  idxPages e := if s.entryWen e then ohIndex s.idxPageUpdateOH else s.idxPages e
  tgts e := if s.entryWen e then offset i.req else s.tgts e
  tgtPages e := if s.entryWen e then ohIndex (s.tgtPageUpdateOH i) else s.tgtPages e
  useRAS e := if s.entryWen e then s.update.isReturn else s.useRAS e
  pages p := if s.pageWen i p then s.bankData i p else s.pages p
  pageValid p := !i.invalidate && (s.pageWen i p || s.pageValid p)
  updateValidReg := i.update.isSome
  update := i.update.getD s.update
  nextRepl :=
    if s.writes && (!s.updateHit && s.updateValid) then counterNext c.entries s.nextRepl
    else s.nextRepl
  nextPageRepl :=
    if s.updateValidReg && (s.doIdxPageRepl || s.doTgtPageRepl i) then
      counterNext c.pages s.nextPageRepl
    else s.nextPageRepl

/-- Reset; what has no initial value is anything. -/
structure IsReset : Prop where
  idxValid : ∀ e, s.idxValid e = false
  pageValid : ∀ p, s.pageValid p = false
  updateValidReg : s.updateValidReg = false
  nextRepl : s.nextRepl = 0
  nextPageRepl : s.nextPageRepl = 0

/-- A branch and its target. -/
structure Written (c : BTBConfig) where
  pc : BitVec c.vaddrBits
  target : BitVec c.vaddrBits
  deriving DecidableEq

/-- What was last written to each entry. -/
def note (g : Fin c.entries → Option (Written c)) : Fin c.entries → Option (Written c) :=
  fun e => if s.entryWen e then some ⟨s.update.pc, i.req⟩ else g e

def machine (c : BTBConfig) : Machine (BTB c × (Fin c.entries → Option (Written c))) (BTBIn c) :=
  (Machine.clocked IsReset next).observe (fun _ => none) note

end BTB

end RiscvSoc
