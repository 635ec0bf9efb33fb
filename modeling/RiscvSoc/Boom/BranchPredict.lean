import RiscvSoc.Boom.BranchDecode
import RiscvSoc.Lib.Encoder
import RiscvSoc.Lib.Trail

/-!
# The branch prediction stage

The second half of the fetch stage in `boom/src/main/scala/dpath.scala`: what becomes of a response
of the front end before it enters the fetch buffer. The first branch of the bundle has the direction
the history table gave, the first `JAL` is taken, and the entry of the branch target buffer names an
instruction of the bundle; they compete for the program counter and for what they cut off behind
them.

## What a prediction names

A fetched instruction carries what is recorded with it: whether the target buffer took it, and
whether the history table did. `Fetched.next` is the address this names. It is the target of the
buffer's entry, the instruction's own target, or the next word. A `JAL` has its own target whatever
is recorded. Two fields are history: the address the instruction was fetched from and the target
the buffer gave. Both are gone from the bundle in the circuit.

The width is one or two. The masks are written for two slots in the source, and for one slot they
are cut off.
-/

namespace RiscvSoc

variable {W : ℕ}

/-! ### Addresses in a bundle -/

/-- `lsb`, the width of an offset in a bundle. -/
def fetchLsb (W : ℕ) : ℕ := Nat.log2 (4 * W)

/-- `aligned_fetch_pc`. -/
def alignedFetchPc (W : ℕ) (pc : VAddr) : VAddr := (pc >>> fetchLsb W) <<< fetchLsb W

/-- The slot an address is in. -/
def fetchSlot (W : ℕ) [NeZero W] (pc : VAddr) : Fin W := Fin.ofNat W (pc.toNat / 4)

/-- `pcp4`: the address after a bundle. -/
def pcp4 (W : ℕ) (pc : VAddr) : VAddr :=
  let pcp4₀ := pc + BitVec.ofNat 44 (4 * W)
  BitVec.ofBool (pc.getLsbD (vaddrBits - 1) && pcp4₀.getLsbD (vaddrBits - 1)) ++
    (alignedFetchPc W pcp4₀).setWidth 43

/-- The upper bits of an address agree. -/
def goodVAddr (pc : VAddr) : Bool := pc.getLsbD vaddrBits == pc.getLsbD (vaddrBits - 1)

/-! ### What comes in and what comes out -/

/-- `FrontendResp`. -/
structure FrontendResp (W : ℕ) where
  pc : VAddr
  data : Fin W → BitVec 32
  taken : Bool
  takenIdx : Fin W
  debugTakenPc : VAddr
  xcptIf : Bool

/-- One instruction of a `FetchBundle`, with its share of the predictions. -/
structure Fetched where
  pc : BitVec 64
  inst : BitVec 32
  /-- `br_prediction.taken`. -/
  brTaken : Bool
  btbPredTaken : Bool
  xcptMa : Bool
  xcptIf : Bool
  /-- History: the address it was fetched from. -/
  addr : VAddr
  /-- History: the target the branch target buffer gave with the bundle. -/
  btbTarget : VAddr
  deriving DecidableEq

namespace Fetched

variable (f : Fetched)

/-- The address its recorded prediction names. -/
def next : VAddr :=
  discardLsb
    (if f.btbPredTaken then f.btbTarget
    else if f.brTaken || Inst.isJal f.inst then ownTarget (f.pc.setWidth 44) f.inst
    else f.pc.setWidth 44 + 4)

end Fetched

/-- The address of the word an address is in. -/
def wordAddr (a : VAddr) : VAddr := alignedFetchPc 1 a

/-- What holds of every instruction that enters the fetch buffer. -/
structure Fetched.Ok (f : Fetched) : Prop where
  pc : f.pc = (wordAddr f.addr).setWidth 64
  good : f.xcptIf = false → goodVAddr f.addr = true
  aligned : f.xcptMa = false → wordAddr f.addr = f.addr
  br : f.brTaken = true → Inst.isBr f.inst = true ∧ f.btbPredTaken = false
  own : f.btbPredTaken = true → (Inst.isBr f.inst || Inst.isJal f.inst) = true →
    f.btbTarget = ownTarget (f.pc.setWidth 44) f.inst

namespace FrontendResp

variable [NeZero W] (r : FrontendResp W) (bht : Bool)

def mask (w : Fin W) : Bool := decide (fetchSlot W r.pc ≤ w)

def xcptMa : Bool := r.pc.extractLsb' 0 2 != 0

/-! ### The first branch and the first jump -/

def brs (w : Fin W) : Bool := Inst.isBr (r.data w) && r.mask w

def jals (w : Fin W) : Bool := Inst.isJal (r.data w) && r.mask w

/-- `bpd_br_val` and `bpd_br_idx`. -/
def brVal : Bool := orR r.brs

def brIdx : Fin W := (priorityEncoder r.brs).getD 0

/-- `bpd_jal_val` and `bpd_jal_idx`. -/
def jalVal : Bool := orR r.jals

def jalIdx : Fin W := (priorityEncoder r.jals).getD 0

/-- The address of a slot, as the adders of this stage compute it. -/
def slotPc (w : Fin W) : BitVec 64 :=
  (alignedFetchPc W r.pc).setWidth 64 + if w.val = 1 then 4 else 0

def brpredTarget : BitVec 64 :=
  r.slotPc r.brIdx + (Inst.brImm32 (r.data r.brIdx)).signExtend 64

def jalpredTarget : BitVec 64 :=
  r.slotPc r.jalIdx + (Inst.jalImm32 (r.data r.jalIdx)).signExtend 64

/-! ### Who redirects the program counter -/

def bhtPredTaken : Bool := r.brVal && bht

def brWins : Bool := if r.jalVal && decide (r.jalIdx < r.brIdx) then false else r.bhtPredTaken bht

/-- `bp2_wants_to_take_pc` while nothing is mispredicted. -/
def wantsToTakePc : Bool :=
  r.brWins bht && r.brVal && r.bhtPredTaken bht || !r.brWins bht && r.jalVal

def predTarget : BitVec 64 := if r.brWins bht then r.brpredTarget else r.jalpredTarget

def predIdx : Fin W := if r.brWins bht then r.brIdx else r.jalIdx

def bhtOverridesBtb : Bool :=
  r.jalVal && !r.brWins bht && r.taken && decide (r.predIdx bht < r.takenIdx)

/-- `bp2_take_pc` while nothing is mispredicted. -/
def takePc : Bool := r.wantsToTakePc bht && (!r.taken || r.bhtOverridesBtb bht)

/-! ### What enters the fetch buffer -/

/-- `bp2_prediction.taken`. -/
def predictionTaken : Bool := r.bhtPredTaken bht && !r.taken && r.brWins bht

/-- `bpd_kill_mask`. -/
def bpdKillMask (w : Fin W) : Bool :=
  (r.brVal && decide (r.brIdx.val = 0) && r.predictionTaken bht ||
    r.taken && decide (r.takenIdx.val = 0)) && decide (w.val = 1)

/-- `jal_kill_mask`. -/
def jalKillMask (w : Fin W) : Bool := r.jalVal && decide (r.jalIdx < w)

/-- `fetch_bundle.mask`. -/
def fetchMask (w : Fin W) : Bool := r.mask w && !r.bpdKillMask bht w && !r.jalKillMask w

/-- A slot of the bundle, as `FetchSerializerNtoM` shows it to the decoders. -/
def fetched (w : Fin W) : Fetched where
  pc := (alignedFetchPc W r.pc).setWidth 64 + BitVec.ofNat 64 (4 * w)
  inst := r.data w
  brTaken := decide (w = r.brIdx) && r.predictionTaken bht
  btbPredTaken := r.taken && decide (r.takenIdx = w)
  xcptMa := r.xcptMa
  xcptIf := r.xcptIf
  addr := if w = fetchSlot W r.pc then r.pc else alignedFetchPc W r.pc + BitVec.ofNat 44 (4 * w)
  btbTarget := r.debugTakenPc

/-- The instructions that enter the fetch buffer. -/
def valid : List Fetched := ((List.finRange W).filter (r.fetchMask bht)).map (r.fetched bht)

/-- Where the front end goes on when the bundle is taken and nothing else redirects it. -/
def goesOn : VAddr :=
  discardLsb
    (if r.takePc bht then (r.predTarget bht).setWidth 44
    else if r.taken then r.debugTakenPc
    else pcp4 W r.pc)

/-- The address of a slot. -/
def slotAddr (w : Fin W) : VAddr := alignedFetchPc W r.pc + BitVec.ofNat 44 (4 * w)

/-- The branch target buffer has the own target of a direct branch or jump. -/
def BtbOk (r : FrontendResp W) : Prop :=
  r.taken = true → (Inst.isBr (r.data r.takenIdx) || Inst.isJal (r.data r.takenIdx)) = true →
    r.debugTakenPc = ownTarget (r.slotAddr r.takenIdx) (r.data r.takenIdx)

end FrontendResp

/-! ### Arithmetic -/

theorem fetchLsb_pow (hW : W = 1 ∨ W = 2) : 2 ^ fetchLsb W = 4 * W := by
  rcases hW with rfl | rfl <;> decide

theorem alignedFetchPc_toNat (hW : W = 1 ∨ W = 2) (pc : VAddr) :
    (alignedFetchPc W pc).toNat = pc.toNat / (4 * W) * (4 * W) := by
  have hlt := pc.isLt
  rw [alignedFetchPc, BitVec.toNat_shiftLeft, BitVec.toNat_ushiftRight, Nat.shiftLeft_eq,
    Nat.shiftRight_eq_div_pow, fetchLsb_pow hW, Nat.mod_eq_of_lt]
  exact (Nat.div_mul_le_self _ _).trans_lt hlt

theorem goodVAddr_iff (pc : VAddr) : goodVAddr pc = true ↔
    pc.toNat < 2 ^ 42 ∨ 2 ^ 44 - 2 ^ 42 ≤ pc.toNat := by
  have hlt := pc.isLt
  simp only [goodVAddr, vaddrBits, beq_iff_eq, BitVec.getLsbD, Nat.testBit_eq_decide_div_mod_eq,
    decide_eq_decide]
  omega

theorem ofBool_append_toNat (b : Bool) (x : BitVec 43) :
    (BitVec.ofBool b ++ x).toNat = (if b then 2 ^ 43 else 0) + x.toNat := by
  rw [BitVec.toNat_append, ← Nat.shiftLeft_add_eq_or_of_lt x.isLt]
  cases b <;> simp [Nat.shiftLeft_eq]

theorem pcp4_eq (hW : W = 1 ∨ W = 2) {pc : VAddr} (h : goodVAddr pc = true) :
    pcp4 W pc = alignedFetchPc W pc + BitVec.ofNat 44 (4 * W) := by
  have hlt := pc.isLt
  rw [goodVAddr_iff] at h
  apply BitVec.eq_of_toNat_eq
  have hbit : (pc.getLsbD (vaddrBits - 1) &&
      (pc + BitVec.ofNat 44 (4 * W)).getLsbD (vaddrBits - 1)) =
      decide (2 ^ 44 - 2 ^ 42 ≤ pc.toNat ∧ pc.toNat + 4 * W < 2 ^ 44) := by
    simp only [BitVec.getLsbD, Nat.testBit_eq_decide_div_mod_eq, vaddrBits, BitVec.toNat_add,
      BitVec.toNat_ofNat, ← Bool.decide_and, decide_eq_decide]
    rcases hW with rfl | rfl <;> omega
  rw [pcp4, ofBool_append_toNat, hbit]
  simp only [BitVec.toNat_setWidth, BitVec.toNat_add, BitVec.toNat_ofNat, alignedFetchPc_toNat hW,
    decide_eq_true_eq]
  rcases hW with rfl | rfl <;> split <;> omega

theorem wordAddr_toNat (a : VAddr) : (wordAddr a).toNat = a.toNat / 4 * 4 :=
  alignedFetchPc_toNat (.inl rfl) a

theorem target_eq (a : VAddr) (off : BitVec 64) (n : ℕ) (hn : n < 32) (imm : BitVec n) :
    (a.setWidth 64 + off + (imm.signExtend 32).signExtend 64).setWidth 44 =
      a + off.setWidth 44 + imm.signExtend 44 := by
  rw [BitVec.setWidth_add _ _ (by decide), BitVec.setWidth_add _ _ (by decide)]
  congr 1
  · simp
  · rw [setWidth_signExtend _ (by decide), signExtend_signExtend _ hn]

namespace FrontendResp

variable [NeZero W] {r : FrontendResp W} {bht : Bool}

theorem fetched_pc (w : Fin W) : (r.fetched bht w).pc.setWidth 44 = r.slotAddr w := by
  rw [fetched, BitVec.setWidth_add _ _ (by decide), slotAddr]
  simp

omit [NeZero W] in
theorem slotPc_eq (hW : W = 1 ∨ W = 2) (w : Fin W) :
    r.slotPc w = (alignedFetchPc W r.pc).setWidth 64 + BitVec.ofNat 64 (4 * w) := by
  rw [slotPc]
  have hw := w.isLt
  split
  · rename_i h
    rw [h]
    rfl
  · rw [show w.val = 0 by omega]
    rfl

theorem brpredTarget_eq (hW : W = 1 ∨ W = 2) : r.brpredTarget.setWidth 44 =
    r.slotAddr r.brIdx + (Inst.immB (r.data r.brIdx)).signExtend 44 := by
  rw [brpredTarget, slotPc_eq hW, Inst.brImm32_eq, target_eq _ _ _ (by decide), slotAddr]
  simp

theorem jalpredTarget_eq (hW : W = 1 ∨ W = 2) : r.jalpredTarget.setWidth 44 =
    r.slotAddr r.jalIdx + (Inst.immJ (r.data r.jalIdx)).signExtend 44 := by
  rw [jalpredTarget, slotPc_eq hW, Inst.jalImm32_eq, target_eq _ _ _ (by decide), slotAddr]
  simp

/-! ### One slot -/

variable {w : Fin W}

theorem mem_mask_of_brs (h : r.brs w = true) : r.mask w = true :=
  (Bool.and_eq_true_iff.mp h).2

theorem brIdx_spec (h : r.brVal = true) : r.brs r.brIdx = true := by
  obtain ⟨w, hw⟩ := Option.isSome_iff_exists.mp h
  rw [brIdx, hw]
  exact priorityEncoder_some hw

theorem jalIdx_spec (h : r.jalVal = true) : r.jals r.jalIdx = true := by
  obtain ⟨w, hw⟩ := Option.isSome_iff_exists.mp h
  rw [jalIdx, hw]
  exact priorityEncoder_some hw

theorem jalIdx_le (h : r.jals w = true) : r.jalVal = true ∧ r.jalIdx ≤ w := by
  have hval : r.jalVal = true := orR_eq_true.mpr ⟨w, h⟩
  obtain ⟨v, hv⟩ := Option.isSome_iff_exists.mp hval
  refine ⟨hval, ?_⟩
  rw [jalIdx, hv]
  by_contra hlt
  have hno := (priorityEncoder_eq_some.mp hv).2 w (not_le.mp hlt)
  rw [h] at hno
  cases hno

/-- A slot that is left is a slot of the response, and nothing before it cuts it off. -/
structure Left (r : FrontendResp W) (bht : Bool) (w : Fin W) : Prop where
  mask : r.mask w = true
  noBr : w.val = 1 → r.brVal = true → r.brIdx.val = 0 → r.predictionTaken bht = false
  noBtb : w.val = 1 → r.taken = true → r.takenIdx.val ≠ 0
  noJal : r.jalVal = true → w ≤ r.jalIdx

theorem left_iff : r.fetchMask bht w = true ↔ Left r bht w := by
  simp only [fetchMask, bpdKillMask, jalKillMask, Bool.and_eq_true, Bool.not_eq_true',
    Bool.and_eq_false_iff, Bool.or_eq_false_iff, decide_eq_false_iff_not, not_lt]
  constructor
  · rintro ⟨⟨hmask, hbpd⟩, hjal⟩
    refine ⟨hmask, fun hw hval hidx => ?_, fun hw htaken hidx => ?_, fun hval => ?_⟩
    · grind
    · grind
    · grind
  · rintro ⟨hmask, hbr, hbtb, hjal⟩
    refine ⟨⟨hmask, ?_⟩, ?_⟩
    · grind
    · grind

/-- The slot has a prediction that leaves the bundle. -/
def namesTarget (r : FrontendResp W) (bht : Bool) (w : Fin W) : Bool :=
  (r.fetched bht w).btbPredTaken || (r.fetched bht w).brTaken || Inst.isJal (r.data w)

omit [NeZero W] in
theorem first_slot (hW : W = 1 ∨ W = 2) {v w : Fin W} (h : v < w) : v.val = 0 ∧ w.val = 1 := by
  have := w.isLt
  have : v.val < w.val := h
  omega

theorem namesTarget_eq_true : r.namesTarget bht w = true ↔
    (r.taken = true ∧ r.takenIdx = w) ∨ (w = r.brIdx ∧ r.predictionTaken bht = true) ∨
      Inst.isJal (r.data w) = true := by
  simp only [namesTarget, fetched, Bool.or_eq_true, Bool.and_eq_true, decide_eq_true_eq, or_assoc]

theorem predictionTaken_eq_true : r.predictionTaken bht = true ↔
    r.brVal = true ∧ bht = true ∧ r.taken = false ∧ r.brWins bht = true := by
  simp only [predictionTaken, bhtPredTaken, Bool.and_eq_true, Bool.not_eq_true', and_assoc]

theorem brWins_eq_true : r.brWins bht = true ↔
    (r.jalVal = true → r.brIdx ≤ r.jalIdx) ∧ r.brVal = true ∧ bht = true := by
  rw [brWins, bhtPredTaken]
  cases r.jalVal <;> by_cases hlt : r.jalIdx < r.brIdx <;> simp [hlt, not_le.mpr, not_lt.mp]

theorem takePc_eq_true : r.takePc bht = true ↔ (r.brWins bht = true ∧ r.taken = false) ∨
    (r.brWins bht = false ∧ r.jalVal = true ∧ (r.taken = true → r.jalIdx < r.takenIdx)) := by
  rw [takePc, wantsToTakePc, bhtOverridesBtb, predIdx, bhtPredTaken]
  cases hwins : r.brWins bht with
  | true =>
    obtain ⟨-, hval, hbht⟩ := brWins_eq_true.mp hwins
    simp [hval, hbht]
  | false => cases r.taken <;> simp

section

variable (hW : W = 1 ∨ W = 2)
include hW

/-- Nothing is left behind a slot whose prediction leaves the bundle. -/
theorem not_left_of_lt {v w : Fin W} (hvw : v < w) (hv : r.mask v = true)
    (hnames : r.namesTarget bht v = true) : ¬Left r bht w := by
  intro hw
  obtain ⟨hv0, hw1⟩ := first_slot hW hvw
  rcases namesTarget_eq_true.mp hnames with ⟨htaken, rfl⟩ | ⟨rfl, htaken⟩ | hjal
  · exact hw.noBtb hw1 htaken hv0
  · have hval := (predictionTaken_eq_true.mp htaken).1
    rw [hw.noBr hw1 hval hv0] at htaken
    cases htaken
  · obtain ⟨hval, hle⟩ := jalIdx_le (r := r) (w := v) (by rw [jals, hjal, hv]; rfl)
    exact hvw.not_ge ((hw.noJal hval).trans hle)

/-- The entry of the target buffer is about this slot or a later one. -/
theorem Left.le_takenIdx (hw : Left r bht w) (htaken : r.taken = true) : w ≤ r.takenIdx := by
  by_contra hlt
  obtain ⟨h0, h1⟩ := first_slot hW (not_le.mp hlt)
  exact hw.noBtb h1 htaken h0

theorem Left.le_brIdx (hw : Left r bht w)
    (htaken : r.predictionTaken bht = true) : w ≤ r.brIdx := by
  by_contra hlt
  obtain ⟨h0, h1⟩ := first_slot hW (not_le.mp hlt)
  rw [hw.noBr h1 (predictionTaken_eq_true.mp htaken).1 h0] at htaken
  cases htaken

/-- The prediction of a slot that is left is the one that counts. -/
theorem goesOn_of_namesTarget (hw : Left r bht w)
    (hnames : r.namesTarget bht w = true) : r.goesOn bht = (r.fetched bht w).next := by
  by_cases hbtb : r.taken = true ∧ r.takenIdx = w
  · -- a jump before the entry would have cut the slot off
    have hno : r.takePc bht = false := by
      rw [← Bool.not_eq_true, takePc_eq_true, hbtb.2]
      rintro (⟨-, hno⟩ | ⟨-, hval, hlt⟩)
      · rw [hbtb.1] at hno
        cases hno
      · exact (hlt hbtb.1).not_ge (hw.noJal hval)
    rw [goesOn, hno, hbtb.1, Fetched.next, fetched, hbtb.1, hbtb.2]
    simp
  · have hbtb' : (r.fetched bht w).btbPredTaken = false := by
      rw [fetched]
      simpa using hbtb
    have hlater : r.taken = true → w < r.takenIdx := fun htaken =>
      lt_of_le_of_ne (hw.le_takenIdx hW htaken) fun heq => hbtb ⟨htaken, heq.symm⟩
    by_cases hbr : w = r.brIdx ∧ r.predictionTaken bht = true
    · obtain ⟨rfl, htaken⟩ := hbr
      obtain ⟨hval, -, hnone, hwins⟩ := predictionTaken_eq_true.mp htaken
      have htake : r.takePc bht = true := takePc_eq_true.mpr (.inl ⟨hwins, hnone⟩)
      have hbr := (Bool.and_eq_true_iff.mp (brIdx_spec hval)).1
      rw [goesOn, if_pos htake, predTarget, if_pos hwins, brpredTarget_eq hW, Fetched.next, hbtb',
        if_neg (by simp), fetched_pc, ownTarget, Inst.offset]
      simp [fetched, htaken, Inst.isJal_of_isBr _ hbr]
    · have hjal : Inst.isJal (r.data w) = true := by
        rcases namesTarget_eq_true.mp hnames with h | h | h
        · exact absurd h hbtb
        · exact absurd h hbr
        · exact h
      obtain ⟨hval, hle⟩ := jalIdx_le (r := r) (w := w) (by rw [jals, hjal, hw.mask]; rfl)
      obtain rfl : r.jalIdx = w := le_antisymm hle (hw.noJal hval)
      have hwins : r.brWins bht = false := by
        rw [← Bool.not_eq_true, brWins_eq_true]
        rintro ⟨hfirst, hbval, hbht⟩
        -- the branch is before the jump, and it would have cut the jump off
        have hbr := (Bool.and_eq_true_iff.mp (brIdx_spec hbval)).1
        have hlt : r.brIdx < r.jalIdx := by
          refine lt_of_le_of_ne (hfirst hval) fun heq => ?_
          rw [← heq, Inst.isJal_of_isBr _ hbr] at hjal
          cases hjal
        have hnone : r.taken = false := by
          rw [← Bool.not_eq_true]
          intro htaken
          have h1 := (first_slot hW hlt).2
          rw [(first_slot hW (hlater htaken)).1] at h1
          cases h1
        have hpred : r.predictionTaken bht = true :=
          predictionTaken_eq_true.mpr
            ⟨hbval, hbht, hnone, brWins_eq_true.mpr ⟨hfirst, hbval, hbht⟩⟩
        exact hlt.not_ge (hw.le_brIdx hW hpred)
      have htake : r.takePc bht = true := takePc_eq_true.mpr (.inr ⟨hwins, hval, hlater⟩)
      rw [goesOn, if_pos htake, predTarget, if_neg (by rw [hwins]; nofun), jalpredTarget_eq hW,
        Fetched.next, hbtb', if_neg (by simp), fetched_pc, ownTarget, Inst.offset]
      simp [fetched, hjal]

/-- A slot that is left and whose prediction leaves nothing out goes on in the next slot. -/
theorem left_succ {v w : Fin W} (hvw : v < w) (hv : Left r bht v)
    (hnames : r.namesTarget bht v = false) : Left r bht w := by
  obtain ⟨hv0, hw1⟩ := first_slot hW hvw
  rw [← Bool.not_eq_true, namesTarget_eq_true, not_or, not_or] at hnames
  obtain ⟨hbtb, hbr, hjal⟩ := hnames
  refine ⟨?_, fun _ _ hidx => ?_, fun _ htaken hidx => ?_, fun hval => ?_⟩
  · exact decide_eq_true ((of_decide_eq_true hv.mask).trans hvw.le)
  · rw [← Bool.not_eq_true]
    exact fun htaken => hbr ⟨Fin.ext (by rw [hidx, hv0]), htaken⟩
  · exact hbtb ⟨htaken, Fin.ext (by rw [hidx, hv0])⟩
  · by_contra hlt
    have heq : r.jalIdx = v := Fin.ext (by
      have := first_slot hW (not_le.mp hlt)
      omega)
    have hj := (Bool.and_eq_true_iff.mp (jalIdx_spec hval)).1
    rw [heq] at hj
    exact hjal hj

theorem goesOn_of_last (hlast : w.val + 1 = W) (hw : Left r bht w)
    (hnames : r.namesTarget bht w = false) :
    r.goesOn bht = discardLsb (pcp4 W r.pc) := by
  have heq : ∀ v : Fin W, w ≤ v → v = w := by
    intro v hv
    have := v.isLt
    exact le_antisymm (Fin.le_def.mpr (by omega)) hv
  rw [← Bool.not_eq_true, namesTarget_eq_true, not_or, not_or] at hnames
  obtain ⟨hbtb, hbr, hjal⟩ := hnames
  have hnone : r.taken = false := by
    rw [← Bool.not_eq_true]
    exact fun htaken => hbtb ⟨htaken, heq _ (hw.le_takenIdx hW htaken)⟩
  have hno : r.takePc bht = false := by
    rw [← Bool.not_eq_true, takePc_eq_true]
    rintro (⟨hwins, -⟩ | ⟨-, hval, -⟩)
    · obtain ⟨-, hval, hbht⟩ := brWins_eq_true.mp hwins
      have hpred := predictionTaken_eq_true.mpr ⟨hval, hbht, hnone, hwins⟩
      exact hbr ⟨(heq _ (hw.le_brIdx hW hpred)).symm, hpred⟩
    · have hj := (Bool.and_eq_true_iff.mp (jalIdx_spec hval)).1
      rw [heq _ (hw.noJal hval)] at hj
      exact hjal hj
  rw [goesOn, hno, hnone]
  rfl

end

theorem next_of_not_namesTarget (hnames : r.namesTarget bht w = false) :
    (r.fetched bht w).next = discardLsb (r.slotAddr w + 4) := by
  simp only [namesTarget, Bool.or_eq_false_iff] at hnames
  obtain ⟨⟨hbtb, hbr⟩, hjal⟩ := hnames
  rw [Fetched.next, hbtb, hbr, fetched_pc, show (r.fetched bht w).inst = r.data w from rfl, hjal]
  rfl

theorem left_fetchSlot (bht : Bool) (hidx : r.taken = true → r.mask r.takenIdx = true) :
    Left r bht (fetchSlot W r.pc) where
  mask := decide_eq_true le_rfl
  noBr h1 hval h0 := by
    have hle : fetchSlot W r.pc ≤ r.brIdx := of_decide_eq_true (mem_mask_of_brs (brIdx_spec hval))
    rw [Fin.le_def, h1, h0] at hle
    omega
  noBtb h1 htaken h0 := by
    have hle : fetchSlot W r.pc ≤ r.takenIdx := of_decide_eq_true (hidx htaken)
    rw [Fin.le_def, h1, h0] at hle
    omega
  noJal hval := of_decide_eq_true (Bool.and_eq_true_iff.mp (jalIdx_spec hval)).2

theorem slotAddr_toNat (hW : W = 1 ∨ W = 2) (w : Fin W) :
    (r.slotAddr w).toNat = r.pc.toNat / (4 * W) * (4 * W) + 4 * w := by
  have hlt := r.pc.isLt
  have hw := w.isLt
  rw [slotAddr, BitVec.toNat_add, alignedFetchPc_toNat hW, BitVec.toNat_ofNat]
  rcases hW with rfl | rfl <;> omega

theorem discardLsb_slotAddr (hW : W = 1 ∨ W = 2) {v w : Fin W} (hvw : v.val + 1 = w.val) :
    discardLsb (r.slotAddr v + 4) = r.slotAddr w := by
  apply BitVec.eq_of_toNat_eq
  have hlt := r.pc.isLt
  have hw := w.isLt
  rw [discardLsb_toNat, BitVec.toNat_add, slotAddr_toNat hW, slotAddr_toNat hW,
    show (4 : VAddr).toNat = 4 from rfl]
  rcases hW with rfl | rfl <;> omega

theorem slotAddr_last (hW : W = 1 ∨ W = 2) (hlast : w.val + 1 = W)
    (hgood : goodVAddr r.pc = true) : r.slotAddr w + 4 = pcp4 W r.pc := by
  rw [pcp4_eq hW hgood]
  apply BitVec.eq_of_toNat_eq
  rw [BitVec.toNat_add, slotAddr_toNat hW, BitVec.toNat_add, alignedFetchPc_toNat hW,
    BitVec.toNat_ofNat, show (4 : VAddr).toNat = 4 from rfl]
  rcases hW with rfl | rfl <;> omega

theorem next_of_last (hW : W = 1 ∨ W = 2) (hw : Left r bht w) (hgood : goodVAddr r.pc = true)
    (hlast : ∀ v, w < v → ¬Left r bht v) : (r.fetched bht w).next = r.goesOn bht := by
  cases hnames : r.namesTarget bht w with
  | true => exact (goesOn_of_namesTarget hW hw hnames).symm
  | false =>
    have hend : w.val + 1 = W := by
      by_contra hne
      have hlt : w.val + 1 < W := by omega
      refine hlast ⟨w + 1, hlt⟩ (Fin.lt_def.mpr (Nat.lt_succ_self _)) ?_
      exact left_succ hW (Fin.lt_def.mpr (Nat.lt_succ_self _)) hw hnames
    rw [goesOn_of_last hW hend hw hnames, next_of_not_namesTarget hnames,
      slotAddr_last hW hend hgood]

/-- The slots that are left: the slot of the address, and perhaps the one behind it. -/
theorem valid_eq (bht : Bool) (hW : W = 1 ∨ W = 2)
    (hidx : r.taken = true → r.mask r.takenIdx = true) :
    (r.valid bht = [r.fetched bht (fetchSlot W r.pc)] ∧
        ∀ v, fetchSlot W r.pc < v → ¬Left r bht v) ∨
      ∃ w, fetchSlot W r.pc < w ∧ r.valid bht =
        [r.fetched bht (fetchSlot W r.pc), r.fetched bht w] ∧
        Left r bht w ∧ (∀ v, w < v → ¬Left r bht v) := by
  have hfirst := left_iff.mpr (left_fetchSlot bht hidx)
  rw [valid]
  rcases hW with rfl | rfl
  · left
    have hzero : fetchSlot 1 r.pc = 0 := Subsingleton.elim _ _
    rw [hzero] at hfirst
    refine ⟨?_, fun v hv => absurd hv (by omega)⟩
    simp [List.finRange_succ, hfirst, hzero]
  · rcases Fin.exists_fin_two.mp ⟨fetchSlot 2 r.pc, rfl⟩ with hslot | hslot
    · rw [hslot] at hfirst
      rw [hslot]
      cases hone : r.fetchMask bht 1 with
      | true =>
        right
        refine ⟨1, Nat.zero_lt_one, ?_, left_iff.mp hone, fun v hv => absurd hv (by omega)⟩
        simp [List.finRange_succ, hfirst, hone]
      | false =>
        left
        refine ⟨?_, fun v hv hleft => ?_⟩
        · simp [List.finRange_succ, hfirst, hone]
        · obtain rfl : v = 1 := by omega
          rw [left_iff.mpr hleft] at hone
          cases hone
    · left
      have hzero : r.fetchMask bht 0 = false := by
        rw [← Bool.not_eq_true, left_iff]
        intro hleft
        have := of_decide_eq_true hleft.mask
        rw [hslot] at this
        omega
      rw [hslot] at hfirst
      rw [hslot]
      refine ⟨?_, fun v hv => absurd hv (by omega)⟩
      simp [List.finRange_succ, hfirst, hzero]

/-- **The instructions that are left form one path.** It starts at the address of the response, and
it leads to where the front end goes on. -/
theorem bundle_leads (hW : W = 1 ∨ W = 2) (hidx : r.taken = true → r.mask r.takenIdx = true)
    (hgood : r.xcptIf = false → goodVAddr r.pc = true) {b : VAddr}
    (hb : r.xcptIf = false → b = r.goesOn bht) :
    Leads Fetched.addr Fetched.next r.pc
      ((r.valid bht).map fun f => (f, f.xcptIf = false)) b := by
  have hstart : (r.fetched bht (fetchSlot W r.pc)).addr = r.pc := if_pos rfl
  have hfirst := left_fetchSlot bht hidx
  rcases valid_eq bht hW hidx with ⟨hvalid, hlast⟩ | ⟨w, hlt, hvalid, hw, hlast⟩
  · rw [hvalid]
    refine leads_singleton hstart fun hgo => ?_
    rw [hb hgo]
    exact (next_of_last hW hfirst (hgood hgo) hlast).symm
  · have hnames : r.namesTarget bht (fetchSlot W r.pc) = false := by
      rw [← Bool.not_eq_true]
      exact fun h => not_left_of_lt hW hlt hfirst.mask h hw
    have hadj : (fetchSlot W r.pc).val + 1 = w.val := by
      obtain ⟨h0, h1⟩ := first_slot hW hlt
      rw [h0, h1]
    rw [hvalid]
    refine ⟨hstart, r.slotAddr w, fun _ => ?_, leads_singleton ?_ fun hgo => ?_⟩
    · rw [next_of_not_namesTarget hnames, discardLsb_slotAddr hW hadj]
    · exact if_neg hlt.ne'
    · rw [hb hgo]
      exact (next_of_last hW hw (hgood hgo) hlast).symm

/-! ### What is recorded is right -/

omit [NeZero W] in
theorem xcptMa_eq_false : r.xcptMa = false ↔ r.pc.toNat % 4 = 0 := by
  rw [xcptMa, bne_eq_false_iff_eq, ← BitVec.toNat_inj]
  simp [BitVec.extractLsb'_toNat]

theorem fetched_addr (w : Fin W) : (r.fetched bht w).addr =
    if w = fetchSlot W r.pc then r.pc else r.slotAddr w := rfl

theorem wordAddr_pc (hW : W = 1 ∨ W = 2) : wordAddr r.pc = r.slotAddr (fetchSlot W r.pc) := by
  apply BitVec.eq_of_toNat_eq
  rw [wordAddr_toNat, slotAddr_toNat hW, fetchSlot, Fin.val_ofNat]
  rcases hW with rfl | rfl <;> omega

theorem wordAddr_slotAddr (hW : W = 1 ∨ W = 2) (w : Fin W) :
    wordAddr (r.slotAddr w) = r.slotAddr w := by
  apply BitVec.eq_of_toNat_eq
  rw [wordAddr_toNat, slotAddr_toNat hW]
  rcases hW with rfl | rfl <;> omega

theorem wordAddr_addr (hW : W = 1 ∨ W = 2) (w : Fin W) :
    wordAddr (r.fetched bht w).addr = r.slotAddr w := by
  rw [fetched_addr]
  split
  · rename_i h
    rw [wordAddr_pc hW, h]
  · exact wordAddr_slotAddr hW w

theorem slotAddr_setWidth (hW : W = 1 ∨ W = 2) (w : Fin W) :
    (r.slotAddr w).setWidth 64 = (r.fetched bht w).pc := by
  apply BitVec.eq_of_toNat_eq
  have hlt := r.pc.isLt
  have hw := w.isLt
  rw [BitVec.toNat_setWidth, slotAddr_toNat hW, fetched, BitVec.toNat_add, BitVec.toNat_setWidth,
    alignedFetchPc_toNat hW, BitVec.toNat_ofNat]
  rcases hW with rfl | rfl <;> omega

theorem fetched_ok (hW : W = 1 ∨ W = 2) (hgood : r.xcptIf = false → goodVAddr r.pc = true)
    (hown : r.BtbOk) : (r.fetched bht w).Ok where
  pc := by rw [wordAddr_addr hW, slotAddr_setWidth hW]
  good hgo := by
    have hpc := (goodVAddr_iff _).mp (hgood hgo)
    rw [fetched_addr]
    split
    · exact hgood hgo
    · rw [goodVAddr_iff, slotAddr_toNat hW]
      have hlt := r.pc.isLt
      have hw := w.isLt
      rcases hW with rfl | rfl <;> omega
  aligned hma := by
    have hpc := xcptMa_eq_false.mp hma
    rw [fetched_addr]
    split
    · apply BitVec.eq_of_toNat_eq
      rw [wordAddr_toNat]
      omega
    · exact wordAddr_slotAddr hW w
  br htaken := by
    rw [fetched, Bool.and_eq_true, decide_eq_true_eq] at htaken
    obtain ⟨rfl, htaken⟩ := htaken
    obtain ⟨hval, -, hnone, -⟩ := predictionTaken_eq_true.mp htaken
    refine ⟨(Bool.and_eq_true_iff.mp (brIdx_spec hval)).1, ?_⟩
    rw [fetched, hnone]
    rfl
  own htaken hdirect := by
    rw [fetched, Bool.and_eq_true, decide_eq_true_eq] at htaken
    obtain ⟨htaken, rfl⟩ := htaken
    rw [fetched_pc]
    exact hown htaken hdirect
end FrontendResp

end RiscvSoc
