import Mathlib.Logic.Function.Basic
import RiscvSoc.Boom.Branch
import RiscvSoc.Lib.FirstFit

/-!
# The rename stage

`RenameMapTableElement`, `RenameFreeList`, `BusyTable` and `RenameStage` from
`boom/src/main/scala/rename.scala`, one clock cycle at a time. The stage renames a bundle of `n`
instructions at once; slot `0` is the oldest.

A decoded instruction carries what the stage looks at. `ldst_val` is what `DecodeUnit` computes from
the destination, so it is a function here. No row of the decode table has a floating-point operand,
so a register operand is either an integer register or none.
-/

namespace RiscvSoc

variable {c : BOOMConf} {n : ℕ}

/-- The number of a logical register. -/
abbrev LReg : Type := Fin 32

instance LReg.instNeZero : NeZero 32 := ⟨by decide⟩

/-- The number of a physical register. -/
abbrev PReg (c : BOOMConf) : Type := Fin c.physRegCount

instance PReg.instLawfulBEq : LawfulBEq (PReg c) := inferInstance

instance : NeZero c.physRegCount :=
  ⟨(Nat.lt_of_lt_of_le (by omega : 0 < 32 + c.decodeWidth) c.physRegCount_ge).ne'⟩

/-- A logical register number taken for a physical one. -/
def LReg.toPReg (r : LReg) : PReg c :=
  r.castLE ((Nat.le_add_right 32 c.decodeWidth).trans c.physRegCount_ge)

/-- `RT_FIX`; and `RT_X`, which is also `RT_PAS`. -/
inductive RType
  | fix
  | x
  deriving DecidableEq, Repr

structure DecUop (c : BOOMConf) where
  ldst : LReg
  lrs1 : LReg
  lrs2 : LReg
  ldstRtype : RType
  lrs1Rtype : RType
  lrs2Rtype : RType
  isBrOrJmp : Bool
  isJal : Bool
  brTag : Fin c.maxBrCount
  brMask : BrMask c

namespace DecUop

variable (u : DecUop c)

/-- `DecodeUnit`'s `ldst_val`. -/
def ldstVal : Bool := decide (u.ldstRtype ≠ .x) && decide (u.ldst ≠ 0)

/-- The instruction takes a branch tag. -/
def allocatesBrTag : Bool := u.isBrOrJmp && !u.isJal

/-- The instruction needs a physical register. -/
def needsPreg : Bool := u.ldstVal && decide (u.ldstRtype = .fix)

end DecUop

/-- A renamed instruction. -/
structure RenUop (c : BOOMConf) extends DecUop c where
  pdst : PReg c
  stalePdst : PReg c
  pop1 : PReg c
  pop2 : PReg c
  prs1Busy : Bool
  prs2Busy : Bool

/-- What the outside drives in one cycle. -/
structure RenameInput (c : BOOMConf) (n : ℕ) where
  kill : Bool
  decMask : Fin n → Bool
  decUops : Fin n → DecUop c
  brinfo : Option (BrResolutionInfo c)
  disInstCanProceed : Fin n → Bool
  /-- `wb_pdsts` of the ports whose `wb_valids` is up. -/
  wbPdsts : List (PReg c)
  comValids : Fin n → Bool
  comUops : Fin n → RenUop c
  comRbkValids : Fin n → Bool

/-- `brinfo.mispredict`, and its tag. -/
def RenameInput.mispredictTag (i : RenameInput c n) : Option (Fin c.maxBrCount) :=
  (i.brinfo.filter (·.mispredict)).map (·.tag)

/-! ### `RenameFreeList` -/

structure RenameFreeList (c : BOOMConf) where
  freeList : PReg c → Bool
  allocationLists : Fin c.maxBrCount → PReg c → Bool

namespace RenameFreeList

variable (f : RenameFreeList c)

/-- One register of the search: it goes to the first slot that has none, if it is free. -/
def allocate (acc : Fin n → Option (PReg c)) (p : PReg c) : Fin n → Option (PReg c) := fun w =>
  if f.freeList p && decide (∀ x < w, (acc x).isSome = true) && (acc w).isNone then some p
  else acc w

/-- `allocated` and `requested_pregs`: the register offered to each slot. -/
def requestedPregs (n : ℕ) : Fin n → Option (PReg c) :=
  ((List.finRange c.physRegCount).filter (· ≠ 0)).foldl f.allocate fun _ => none

/-- The free registers in the order of the search. -/
def freeRegs : List (PReg c) :=
  ((List.finRange c.physRegCount).filter (· ≠ 0)).filter f.freeList

theorem requestedPregs_eq (w : Fin n) : f.requestedPregs n w = f.freeRegs[w.val]? :=
  FirstFit.offers_eq w

theorem mem_freeRegs {p : PReg c} : p ∈ f.freeRegs ↔ p ≠ 0 ∧ f.freeList p = true := by
  simp [freeRegs, and_comm]

theorem requestedPregs_inj {v w : Fin n} {p : PReg c} (hv : f.requestedPregs n v = some p)
    (hw : f.requestedPregs n w = some p) : v = w :=
  FirstFit.offers_inj ((List.nodup_finRange _).filter _) hv hw

theorem of_requestedPregs {w : Fin n} {p : PReg c} (h : f.requestedPregs n w = some p) :
    p ≠ 0 ∧ f.freeList p = true := by
  rw [requestedPregs_eq] at h
  exact f.mem_freeRegs.mp (List.mem_of_getElem? h)

/-- The registers taken by the slots of `ws`, with `req_preg_vals`. -/
def justAllocatedMask (reqPregVals : Fin n → Bool) (ws : Fin n → Bool) (p : PReg c) : Bool :=
  orR fun w => ws w && reqPregVals w && decide (f.requestedPregs n w = some p)

/-- `enq_mask`: a register that is freed by commit or by rollback. -/
def enqMask (enq rollback : Fin n → Option (PReg c)) (p : PReg c) : Bool :=
  orR fun w => decide ((enq w).or (rollback w) = some p)

/-- The first slot whose branch takes tag `t`: its assignment is the last one. -/
def brCleared (renBrTags : Fin n → Option (Fin c.maxBrCount)) (t : Fin c.maxBrCount) :
    Option (Fin n) :=
  priorityEncoder fun w => decide (renBrTags w = some t)

def next (reqPregVals : Fin n → Bool) (enq rollback : Fin n → Option (PReg c))
    (renBrTags : Fin n → Option (Fin c.maxBrCount)) (brMispredict : Option (Fin c.maxBrCount)) :
    RenameFreeList c where
  freeList p :=
    match brMispredict with
    | some t => f.allocationLists t p || f.freeList p || enqMask enq rollback p
    | none => f.freeList p && !f.justAllocatedMask reqPregVals (fun _ => true) p ||
        enqMask enq rollback p
  allocationLists t p :=
    match brMispredict with
    | some t' => f.allocationLists t p && !f.allocationLists t' p
    | none =>
      match brCleared renBrTags t with
      | some w => f.justAllocatedMask reqPregVals (fun x => decide (w < x)) p
      | none => f.allocationLists t p || f.justAllocatedMask reqPregVals (fun _ => true) p

end RenameFreeList

/-! ### `RenameMapTableElement` -/

structure RenameMapTable (c : BOOMConf) where
  element : LReg → PReg c
  elementBrCopies : Fin c.maxBrCount → LReg → PReg c

namespace RenameMapTable

variable (m : RenameMapTable c)

/-- The last slot, among those of `ws`, that writes register `r`, and what it writes. -/
def lastWrite (wens : Fin n → LReg → Bool) (renPdsts : Fin n → PReg c) (ws : Fin n → Bool)
    (r : LReg) : Option (PReg c) :=
  (lastEncoder fun w => ws w && wens w r).map renPdsts

/-- `rollback_wen` and `rollback_stale_pdst`: slot `0` has the highest priority. -/
def rollback (rbk : Fin n → Option (LReg × PReg c)) (r : LReg) : Option (PReg c) :=
  (priorityEncoder fun w => decide ((rbk w).map (·.1) = some r)).bind fun w => (rbk w).map (·.2)

/-- The last slot whose branch takes tag `t`: its copy is the one that stays. -/
def brCopied (renBrTags : Fin n → Option (Fin c.maxBrCount)) (t : Fin c.maxBrCount) :
    Option (Fin n) :=
  lastEncoder fun w => decide (renBrTags w = some t)

def next (wens : Fin n → LReg → Bool) (renPdsts : Fin n → PReg c)
    (renBrTags : Fin n → Option (Fin c.maxBrCount)) (brMispredict : Option (Fin c.maxBrCount))
    (rbk : Fin n → Option (LReg × PReg c)) : RenameMapTable c where
  element r :=
    match brMispredict with
    | some t => m.elementBrCopies t r
    | none => (rollback rbk r).getD
        ((lastWrite wens renPdsts (fun _ => true) r).getD (m.element r))
  elementBrCopies t r :=
    match brCopied renBrTags t with
    | some w => (lastWrite wens renPdsts (fun x => decide (x ≤ w)) r).getD (m.element r)
    | none => m.elementBrCopies t r

end RenameMapTable

/-! ### `BusyTable` -/

/-- A busy bit that is being cleared reads as clear. -/
def busyTableRead (table : PReg c → Bool) (oldPdsts : List (PReg c)) (p : PReg c) : Bool :=
  table p && !decide (p ∈ oldPdsts)

def busyTableNext (table : PReg c → Bool) (oldPdsts : List (PReg c))
    (writes : Fin n → Option (PReg c)) (p : PReg c) : Bool :=
  if p ≠ 0 ∧ orR (fun w => decide (writes w = some p)) then true
  else if p ∈ oldPdsts then false
  else table p

/-! ### `RenameStage` -/

structure RenameStage (c : BOOMConf) where
  mapTable : RenameMapTable c
  freeList : RenameFreeList c
  tableBsy : PReg c → Bool

namespace RenameStage

variable (s : RenameStage c) (i : RenameInput c n)

/-- `freelist_req_pregs`, and `freelist_can_allocate` as the option around it. -/
def reqPregs : Fin n → Option (PReg c) := s.freeList.requestedPregs n

def instCanProceed (w : Fin n) : Bool :=
  ((s.reqPregs w).isSome && decide ((i.decUops w).ldstRtype = .fix) ||
    decide ((i.decUops w).ldstRtype ≠ .fix)) && i.disInstCanProceed w

def renMask (w : Fin n) : Bool := i.decMask w && s.instCanProceed i w && !i.kill

def pdst (w : Fin n) : PReg c :=
  if (i.decUops w).needsPreg then (s.reqPregs w).getD 0 else (i.decUops w).ldst.toPReg

/-- Slot `w` takes a physical register. -/
def writes (w : Fin n) : Bool :=
  s.renMask i w && (i.decUops w).needsPreg && (s.reqPregs w).isSome

/-- `wens`. -/
def wens (w : Fin n) (r : LReg) : Bool := s.writes i w && decide ((i.decUops w).ldst = r)

/-- The earlier slot of the bundle that register `r` of slot `w` is bypassed from: `MuxCase` takes
the first case that holds. -/
def bypass (w : Fin n) (r : LReg) : Option (Fin n) := priorityEncoder fun x =>
  decide (x < w) && s.renMask i x && (i.decUops x).ldstVal && decide (r = (i.decUops x).ldst)

/-- `pop1` and `pop2`. -/
def pop (w : Fin n) (rtype : RType) (r : LReg) : PReg c :=
  if rtype = .fix then
    match s.bypass i w r with
    | some x => s.pdst i x
    | none => if r ≠ 0 then s.mapTable.element r else r.toPReg
  else r.toPReg

/-- `prs1_busy` and `prs2_busy`. -/
def prsBusy (w : Fin n) (rtype : RType) (r : LReg) : Bool :=
  decide (rtype = .fix) && (busyTableRead s.tableBsy i.wbPdsts (s.mapTable.element r) ||
    (s.bypass i w r).isSome)

def stalePdst (w : Fin n) : PReg c :=
  match if (i.decUops w).ldstVal then s.bypass i w (i.decUops w).ldst else none with
  | some x => s.pdst i x
  | none => s.mapTable.element (i.decUops w).ldst

/-- `io.ren_uops`. -/
def renUops (w : Fin n) : RenUop c :=
  let u := i.decUops w
  { u with
    brMask := getNewBrMask i.brinfo u.brMask
    pdst := s.pdst i w
    stalePdst := s.stalePdst i w
    pop1 := s.pop i w u.lrs1Rtype u.lrs1
    pop2 := s.pop i w u.lrs2Rtype u.lrs2
    prs1Busy := s.prsBusy i w u.lrs1Rtype u.lrs1
    prs2Busy := s.prsBusy i w u.lrs2Rtype u.lrs2 }

/-- `ren_br_vals` and `ren_br_tags`. -/
def renBrTags (w : Fin n) : Option (Fin c.maxBrCount) :=
  if i.decMask w && (i.decUops w).allocatesBrTag then some (i.decUops w).brTag else none

/-- `enq_vals` and `enq_pregs`: the register a committed instruction made stale. -/
def enq (w : Fin n) : Option (PReg c) :=
  let u := i.comUops w
  if i.comValids w && decide (u.ldstRtype = .fix) && decide (u.stalePdst ≠ 0) then some u.stalePdst
  else none

/-- `rollback_wens` and `rollback_pdsts`. -/
def rollbackPdst (w : Fin n) : Option (PReg c) :=
  let u := i.comUops w
  if i.comRbkValids w && decide (u.pdst ≠ 0) && decide (u.ldstRtype = .fix) then some u.pdst
  else none

/-- The mapping a rolled-back instruction restores. -/
def rbk (w : Fin n) : Option (LReg × PReg c) :=
  if i.comRbkValids w then some ((i.comUops w).ldst, (i.comUops w).stalePdst) else none

/-- One cycle. -/
def next : RenameStage c where
  mapTable := s.mapTable.next (s.wens i) (s.pdst i) (renBrTags i) i.mispredictTag (rbk i)
  freeList := s.freeList.next
    (fun w => s.renMask i w && (i.decUops w).needsPreg) (enq i) (rollbackPdst i) (renBrTags i)
    i.mispredictTag
  tableBsy := busyTableNext s.tableBsy i.wbPdsts fun w =>
    if s.writes i w then s.reqPregs w else none

/-- Reset: every register is free and mapped to `P0`. -/
structure IsReset : Prop where
  element : ∀ r, s.mapTable.element r = 0
  freeList : ∀ p, s.freeList.freeList p = decide (p ≠ 0)
  tableBsy : ∀ p, s.tableBsy p = false

end RenameStage

end RiscvSoc
