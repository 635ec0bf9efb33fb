import RiscvSoc.Lib.Encoder

/-!
# Branch tags and masks

The parameters of the out-of-order core, and what every buffer of it does with a branch mask: the
helpers of `boom/src/main/scala/util.scala`. A mask over the branch tags is a predicate.
-/

namespace RiscvSoc

/-- The constants of `consts.scala` a result may depend on. -/
structure BOOMConf where
  /-- `MEM_ADDR_SZ`. -/
  memAddrSz : ℕ
  /-- `MAX_BR_COUNT`. -/
  maxBrCount : ℕ
  paddrBits : ℕ
  /-- `DECODE_WIDTH`, which is also `DISPATCH_WIDTH` and `COMMIT_WIDTH`. -/
  decodeWidth : ℕ
  /-- `PHYS_REG_COUNT`. -/
  physRegCount : ℕ
  /-- `NUM_ROB_ROWS`. -/
  numRobRows : ℕ
  memAddrSz_pos : 0 < memAddrSz
  maxBrCount_ge : 2 ≤ maxBrCount
  decodeWidth_eq : decodeWidth = 1 ∨ decodeWidth = 2
  physRegCount_ge : 32 + decodeWidth ≤ physRegCount
  numRobRows_even : numRobRows % 2 = 0
  numRobRows_pos : 0 < numRobRows

namespace BOOMConf

variable (c : BOOMConf)

/-- `NUM_LSU_ENTRIES`. -/
abbrev lsuEntries : ℕ := 2 ^ c.memAddrSz

instance : NeZero c.lsuEntries := ⟨(Nat.two_pow_pos c.memAddrSz).ne'⟩

instance : NeZero c.numRobRows := ⟨c.numRobRows_pos.ne'⟩

instance : NeZero c.maxBrCount := ⟨(Nat.zero_lt_two.trans_le c.maxBrCount_ge).ne'⟩

/-- Eight loads, eight stores, eight branches, 64 registers, 32 instructions, two a cycle. -/
def chip : BOOMConf where
  memAddrSz := 3
  maxBrCount := 8
  paddrBits := 32
  decodeWidth := 2
  physRegCount := 64
  numRobRows := 16
  memAddrSz_pos := Nat.succ_pos 2
  maxBrCount_ge := by decide
  decodeWidth_eq := by decide
  physRegCount_ge := by decide
  numRobRows_even := by decide
  numRobRows_pos := by decide

/-- Two rows of two micro-ops, and as few registers as that allows. -/
def tiny : BOOMConf where
  memAddrSz := 1
  maxBrCount := 2
  paddrBits := 32
  decodeWidth := 2
  physRegCount := 34
  numRobRows := 2
  memAddrSz_pos := Nat.one_pos
  maxBrCount_ge := le_rfl
  decodeWidth_eq := .inr rfl
  physRegCount_ge := le_rfl
  numRobRows_even := rfl
  numRobRows_pos := Nat.two_pos

end BOOMConf

variable {c : BOOMConf}

/-- A set of branch tags. -/
abbrev BrMask (c : BOOMConf) : Type := Fin c.maxBrCount → Bool

/-- `BrResolutionInfo`; `valid` is the option around it. -/
structure BrResolutionInfo (c : BOOMConf) where
  mispredict : Bool
  mask : BrMask c
  tag : Fin c.maxBrCount
  exeMask : BrMask c
  robIdx : ℕ
  ldqIdx : Fin c.lsuEntries
  stqIdx : Fin c.lsuEntries

def maskMatch (m₁ m₂ : BrMask c) : Bool := orR fun t => m₁ t && m₂ t

/-- `IsKilledByBranch`. -/
def isKilledByBranch (brinfo : Option (BrResolutionInfo c)) (m : BrMask c) : Bool :=
  match brinfo with
  | some b => b.mispredict && maskMatch b.mask m
  | none => false

/-- `GetNewBrMask`. -/
def getNewBrMask (brinfo : Option (BrResolutionInfo c)) (m : BrMask c) : BrMask c :=
  match brinfo with
  | some b => fun t => m t && !b.mask t
  | none => m

theorem maskMatch_eq_true {m₁ m₂ : BrMask c} :
    maskMatch m₁ m₂ = true ↔ ∃ t, m₁ t = true ∧ m₂ t = true := by
  rw [maskMatch, orR_eq_true]
  simp only [Bool.and_eq_true]

variable {brinfo : Option (BrResolutionInfo c)} {m : BrMask c}

theorem isKilledByBranch_eq_true :
    isKilledByBranch brinfo m = true ↔
      ∃ b, brinfo = some b ∧ b.mispredict = true ∧ maskMatch b.mask m = true := by
  rcases brinfo with _ | b
  · simp [isKilledByBranch]
  · simp [isKilledByBranch]

theorem isKilledByBranch_mono {m m' : BrMask c} (hle : ∀ t, m t = true → m' t = true)
    (h : isKilledByBranch brinfo m = true) :
    isKilledByBranch brinfo m' = true := by
  obtain ⟨b, hb, hmis, hmatch⟩ := isKilledByBranch_eq_true.mp h
  obtain ⟨t, hbt, hmt⟩ := maskMatch_eq_true.mp hmatch
  exact isKilledByBranch_eq_true.mpr ⟨b, hb, hmis, maskMatch_eq_true.mpr ⟨t, hbt, hle t hmt⟩⟩

theorem getNewBrMask_mono {m m' : BrMask c}
    (hle : ∀ t, m t = true → m' t = true) (t : Fin c.maxBrCount)
    (h : getNewBrMask brinfo m t = true) : getNewBrMask brinfo m' t = true := by
  rcases brinfo with _ | b
  · exact hle t h
  · simp only [getNewBrMask, Bool.and_eq_true] at h ⊢
    exact ⟨hle t h.1, h.2⟩

theorem getNewBrMask_le
    (t : Fin c.maxBrCount) (h : getNewBrMask brinfo m t = true) : m t = true := by
  rcases brinfo with _ | b
  · exact h
  · exact (Bool.and_eq_true_iff.mp h).1

end RiscvSoc
