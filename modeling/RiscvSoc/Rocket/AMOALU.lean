import RiscvSoc.Lib.ByteMemory
import RiscvSoc.Lib.Words
import RiscvSoc.Uncore.Coherence
import RiscvSoc.Uncore.MemTyp

/-!
# Loads, stores and atomics on a double word

`StoreGen`, `LoadGen` and `AMOALU` from `rocket/src/main/scala/nbdcache.scala`. The data array of
the cache is read and written a double word at a time, so a load shifts its bytes down, and a store
or an atomic is merged into the double word it goes to.

An atomic on a word works on both halves of the double word at once, its operand being repeated:
one adder with the carry into the upper half cut off when that half is meant, and one comparator.

## What is asked of an access

It is aligned, which the cache checks (`misaligned`), and has one of the seven sizes. An atomic has
the size of a word or of a double word; there are no others in the instruction set.
-/

namespace RiscvSoc

/-- `isRead`. -/
def MemCmd.isRead (cmd : MemCmd) : Bool := cmd == .xrd || cmd == .xlr || cmd.isAMO

namespace StoreGen

variable (typ : MemTyp) (addr dat : Word)

def byte : Bool := typ == .b || typ == .bu

def half : Bool := typ == .h || typ == .hu

def word : Bool := typ == .w || typ == .wu

def mask : BitVec 8 :=
  if byte typ then 1#8 <<< (addr.extractLsb 2 0).toNat
  else if half typ then 3#8 <<< (2 * (addr.extractLsb 2 1).toNat)
  else if word typ then 15#8 <<< (4 * (addr.getLsbD 2).toNat)
  else 255#8

def wordData : Word := if word typ then BitVec.replicate 2 (dat.extractLsb' 0 32) else dat

def data : Word :=
  if byte typ then BitVec.replicate 8 (dat.extractLsb' 0 8)
  else if half typ then BitVec.replicate 4 (dat.extractLsb' 0 16)
  else wordData typ dat

end StoreGen

namespace LoadGen

variable (typ : MemTyp) (addr dat : Word) (zero : Bool)

def sign : Bool := typ == .b || typ == .h || typ == .w || typ == .d

def wordShift : BitVec 32 :=
  if addr.getLsbD 2 then dat.extractLsb' 32 32 else dat.extractLsb' 0 32

def word : Word :=
  (if StoreGen.word typ then BitVec.fill 32 (sign typ && (wordShift addr dat).getLsbD 31)
    else dat.extractLsb' 32 32) ++ wordShift addr dat

def halfShift : BitVec 16 :=
  if addr.getLsbD 1 then (word typ addr dat).extractLsb' 16 16
  else (word typ addr dat).extractLsb' 0 16

def half : Word :=
  (if StoreGen.half typ then BitVec.fill 48 (sign typ && (halfShift typ addr dat).getLsbD 15)
    else (word typ addr dat).extractLsb' 16 48) ++ halfShift typ addr dat

def byteShift : BitVec 8 :=
  if zero then 0#8
  else if addr.getLsbD 0 then (half typ addr dat).extractLsb' 8 8
  else (half typ addr dat).extractLsb' 0 8

def byte : Word :=
  (if zero || StoreGen.byte typ then
      BitVec.fill 56 (sign typ && (byteShift typ addr dat zero).getLsbD 7)
    else (half typ addr dat).extractLsb' 8 56) ++ byteShift typ addr dat zero

end LoadGen

namespace AMOALU

variable (addr : Word) (cmd : MemCmd) (typ : MemTyp) (lhs rhs : Word)

def sgned : Bool := cmd == .xaMin || cmd == .xaMax

def max : Bool := cmd == .xaMax || cmd == .xaMaxu

def min : Bool := cmd == .xaMin || cmd == .xaMinu

def word : Bool := typ == .w || typ == .wu || typ == .b || typ == .bu

/-- `mask`: cuts the carry between the halves off. -/
def mask : Word :=
  BitVec.allOnes 64 ^^^ (BitVec.setWidth 64 (BitVec.ofBool (addr.getLsbD 2)) <<< 31)

/-- `adder_out`; here and below `rhs` is the word data of the store generator. -/
def adderOut : Word := (lhs &&& mask addr) + (rhs &&& mask addr)

/-- `cmp_lhs` and `cmp_rhs`: the sign bit. -/
def cmpBit (w : Word) : Bool :=
  if word typ && !addr.getLsbD 2 then w.getLsbD 31 else w.getLsbD 63

def lt : Bool :=
  let ltLo := (lhs.extractLsb' 0 32).ult (rhs.extractLsb' 0 32)
  let ltHi := (lhs.extractLsb' 32 32).ult (rhs.extractLsb' 32 32)
  let eqHi := lhs.extractLsb' 32 32 == rhs.extractLsb' 32 32
  if word typ then (if addr.getLsbD 2 then ltHi else ltLo) else ltHi || eqHi && ltLo

def less : Bool :=
  if cmpBit addr typ lhs == cmpBit addr typ rhs then lt addr typ lhs rhs
  else if sgned cmd then cmpBit addr typ lhs else cmpBit addr typ rhs

/-- The result before it is merged. -/
def result : Word :=
  let rhs' := StoreGen.wordData typ rhs
  match cmd with
  | .xaAdd => adderOut addr lhs rhs'
  | .xaAnd => lhs &&& rhs'
  | .xaOr => lhs ||| rhs'
  | .xaXor => lhs ^^^ rhs'
  | _ =>
    if (if less addr cmd typ lhs rhs' then min cmd else max cmd) then lhs
    else StoreGen.data typ rhs

/-- `FillInterleaved(8, mask)`. -/
def wmask : Word :=
  littleEndian (fun i => BitVec.fill 8 ((StoreGen.mask typ addr).getLsbD i)) 8

def out : Word :=
  (wmask addr typ &&& result addr cmd typ lhs rhs) ||| (~~~wmask addr typ &&& lhs)

end AMOALU

/-! ### Loads -/

/-- The bytes of the access, within its double word. -/
def MemTyp.field (typ : MemTyp) (addr w : Word) : BitVec (8 * typ.size) :=
  w.extractLsb' (8 * typ.offset addr) (8 * typ.size)

theorem getLsbD_low (addr : Word) :
    addr.getLsbD 0 = decide (addr.toNat % 8 % 2 = 1) ∧
    addr.getLsbD 1 = decide (addr.toNat % 8 / 2 % 2 = 1) ∧
    addr.getLsbD 2 = decide (4 ≤ addr.toNat % 8) := by
  refine ⟨?_, ?_, ?_⟩ <;> rw [BitVec.getLsbD, Nat.testBit_eq_decide_div_mod_eq] <;>
    exact decide_eq_decide.mpr (by omega)

namespace LoadGen

variable {typ : MemTyp} {addr : Word} (dat : Word)

theorem extract_extract {w a m b n : ℕ} (x : BitVec w) (h : b + n ≤ m) :
    (x.extractLsb' a m).extractLsb' b n = x.extractLsb' (a + b) n := by
  refine BitVec.eq_of_getLsbD_eq fun i hi => ?_
  rw [BitVec.getLsbD_extractLsb', BitVec.getLsbD_extractLsb', BitVec.getLsbD_extractLsb',
    decide_eq_true hi, decide_eq_true (show b + i < m by omega), Nat.add_assoc]
  rfl

theorem wordShift_eq : wordShift addr dat = dat.extractLsb' (32 * (addr.toNat % 8 / 4)) 32 := by
  rw [wordShift, (getLsbD_low addr).2.2]
  by_cases h : 4 ≤ addr.toNat % 8
  · rw [if_pos (decide_eq_true h), show addr.toNat % 8 / 4 = 1 by omega]
  · rw [if_neg (by simpa using h), show addr.toNat % 8 / 4 = 0 by omega]

theorem halfShift_eq :
    halfShift typ addr dat = dat.extractLsb' (16 * (addr.toNat % 8 / 2)) 16 := by
  have hword : ∀ a, a + 16 ≤ 32 → (word typ addr dat).extractLsb' a 16
      = dat.extractLsb' (32 * (addr.toNat % 8 / 4) + a) 16 := by
    intro a ha
    rw [word, BitVec.extractLsb'_append_eq_of_add_le ha, wordShift_eq, extract_extract _ ha]
  rw [halfShift, (getLsbD_low addr).2.1]
  by_cases h : addr.toNat % 8 / 2 % 2 = 1
  · rw [if_pos (decide_eq_true h), hword 16 (by omega)]
    congr 1
    omega
  · rw [if_neg (by simpa using h), hword 0 (by omega)]
    congr 1
    omega

theorem byteShift_eq : byteShift typ addr dat false = dat.extractLsb' (8 * (addr.toNat % 8)) 8 := by
  have hhalf : ∀ a, a + 8 ≤ 16 → (half typ addr dat).extractLsb' a 8
      = dat.extractLsb' (16 * (addr.toNat % 8 / 2) + a) 8 := by
    intro a ha
    rw [half, BitVec.extractLsb'_append_eq_of_add_le ha, halfShift_eq, extract_extract _ ha]
  rw [byteShift, if_neg (by simp), (getLsbD_low addr).1]
  by_cases h : addr.toNat % 8 % 2 = 1
  · rw [if_pos (decide_eq_true h), hhalf 8 (by omega)]
    congr 1
    omega
  · rw [if_neg (by simpa using h), hhalf 0 (by omega)]
    congr 1
    omega

theorem word_of_aligned (htyp : StoreGen.word typ = false) (height : addr.toNat % 8 = 0) :
    word typ addr dat = dat := by
  rw [word, htyp, if_neg (by simp), wordShift_eq, height, Nat.zero_div, Nat.mul_zero]
  exact append_extract (k := 32) (n := 32) dat

/-- Below the size of the access the address selects nothing. -/
theorem byte_eq_half (htyp : StoreGen.byte typ = false) (heven : addr.toNat % 8 % 2 = 0) :
    byte typ addr dat false = half typ addr dat := by
  have hshift : byteShift typ addr dat false = (half typ addr dat).extractLsb' 0 8 := by
    rw [byteShift, if_neg (by simp), (getLsbD_low addr).1, if_neg (by simp [heven])]
  rw [byte, htyp, Bool.or_false, if_neg (by simp), hshift]
  exact append_extract (k := 56) (n := 8) _

theorem half_eq_word (htyp : StoreGen.half typ = false) (hfour : addr.toNat % 8 % 4 = 0) :
    half typ addr dat = word typ addr dat := by
  have hshift : halfShift typ addr dat = (word typ addr dat).extractLsb' 0 16 := by
    rw [halfShift, (getLsbD_low addr).2.1, if_neg (by simp; omega)]
  rw [half, htyp, if_neg (by simp), hshift]
  exact append_extract (k := 48) (n := 16) _

/-- **What a load returns.** -/
theorem byte_eq (haligned : addr.toNat % typ.size = 0) :
    byte typ addr dat false = typ.extend (typ.field addr dat) := by
  rw [MemTyp.field, MemTyp.offset_of_aligned haligned]
  have hbyteShift : byteShift typ addr dat false = _ := byteShift_eq dat
  have hhalfShift : halfShift typ addr dat = _ := halfShift_eq dat
  have hwordShift : wordShift addr dat = _ := wordShift_eq dat
  cases typ
  case b | bu =>
    rw [byte, hbyteShift]
    exact fill_append (k := 56) _ _
  case h | hu =>
    have heven : addr.toNat % 2 = 0 := haligned
    rw [byte_eq_half dat rfl (by omega), half, hhalfShift,
      show 16 * (addr.toNat % 8 / 2) = 8 * (addr.toNat % 8) by omega]
    exact fill_append (k := 48) _ _
  case w | wu =>
    have hfour : addr.toNat % 4 = 0 := haligned
    rw [byte_eq_half dat rfl (by omega), half_eq_word dat rfl (by omega), word, hwordShift,
      show 32 * (addr.toNat % 8 / 4) = 8 * (addr.toNat % 8) by omega]
    exact fill_append (k := 32) _ _
  all_goals
    have height : addr.toNat % 8 = 0 := haligned
    have hself : dat.extractLsb' (8 * (addr.toNat % 8)) 64 = dat := by
      rw [height]
      exact BitVec.extractLsb'_eq_self
    rw [byte_eq_half dat rfl (by omega), half_eq_word dat rfl (by omega),
      word_of_aligned dat rfl height]
  case d => exact ((BitVec.signExtend_eq _).trans hself).symm
  case x => exact ((BitVec.setWidth_eq _).trans hself).symm

theorem word_eq (haligned : addr.toNat % typ.size = 0) (hsize : 4 ≤ typ.size) :
    word typ addr dat = typ.extend (typ.field addr dat) := by
  have hlow : StoreGen.byte typ = false ∧ StoreGen.half typ = false ∧ addr.toNat % 8 % 4 = 0 := by
    cases typ <;> simp only [MemTyp.size] at haligned hsize <;>
      first | exact ⟨rfl, rfl, by omega⟩ | omega
  rw [← byte_eq dat haligned, byte_eq_half dat hlow.1 (by omega),
    half_eq_word dat hlow.2.1 hlow.2.2]

end LoadGen

/-! ### Stores and atomics -/

/-- What a write leaves in the bytes of its access. -/
def MemCmd.newValue {w : ℕ} (cmd : MemCmd) (old data : BitVec w) : BitVec w :=
  match cmd with
  | .xaAdd => old + data
  | .xaAnd => old &&& data
  | .xaOr => old ||| data
  | .xaXor => old ^^^ data
  | .xaMin => if old.slt data then old else data
  | .xaMax => if old.slt data then data else old
  | .xaMinu => if old.ult data then old else data
  | .xaMaxu => if old.ult data then data else old
  | _ => data

/-- The accesses the instruction set has. -/
structure AccessOk (cmd : MemCmd) (typ : MemTyp) (addr : Word) : Prop where
  sized : typ ≠ .x
  aligned : addr.toNat % typ.size = 0
  atomic : cmd.isAMO = true → typ = .w ∨ typ = .d

namespace AMOALU

variable {addr : Word} {cmd : MemCmd} {typ : MemTyp} (lhs rhs : Word)

theorem storeGenMask_eq : StoreGen.mask typ addr = maskAt (addr.toNat % 8) typ := by
  have h0 : (addr.extractLsb 2 0).toNat = addr.toNat % 8 := by
    simp [BitVec.extractLsb, Nat.shiftRight_zero]
  have h1 : (addr.extractLsb 2 1).toNat = addr.toNat % 8 / 2 := by
    simp [BitVec.extractLsb, Nat.shiftRight_eq_div_pow]
    omega
  have h2 := (getLsbD_low addr).2.2
  cases typ
  case w | wu =>
    rw [StoreGen.mask, if_neg (by decide), if_neg (by decide), if_pos (by decide), h2, maskAt]
    by_cases h : 4 ≤ addr.toNat % 8
    · rw [if_pos h, decide_eq_true h]
      rfl
    · rw [if_neg h, decide_eq_false h]
      rfl
  all_goals rw [StoreGen.mask]
  case b | bu => rw [if_pos (by decide), h0, maskAt]
  case h | hu => rw [if_neg (by decide), if_pos (by decide), h1, maskAt]
  case d | x => rfl

theorem getLsbD_wmask {j : ℕ} (hj : j < 64) : (wmask addr typ).getLsbD j
    = decide (typ.offset addr ≤ j / 8 ∧ j / 8 < typ.offset addr + typ.size) := by
  rw [wmask, getLsbD_littleEndian _ 8 hj, BitVec.getLsbD_fill, storeGenMask_eq,
    decide_eq_true (Nat.mod_lt j (by decide)), Bool.and_true]
  exact getLsbD_maskAt _ (Nat.mod_lt _ (by decide)) _ (by omega) typ

theorem extract_replicate {w n k : ℕ} (x : BitVec w) (hk : k < n) :
    (x.replicate n).extractLsb' (w * k) w = x := by
  refine BitVec.eq_of_getLsbD_eq fun i hi => ?_
  have hlt : w * k + i < w * n := by
    calc w * k + i < w * k + w := Nat.add_lt_add_left hi _
      _ = w * (k + 1) := (Nat.mul_succ w k).symm
      _ ≤ w * n := Nat.mul_le_mul_left w hk
  rw [BitVec.getLsbD_extractLsb', decide_eq_true hi, BitVec.getLsbD_replicate, decide_eq_true hlt,
    Nat.mul_add_mod, Nat.mod_eq_of_lt hi]
  rfl

theorem field_data : typ.field addr (StoreGen.data typ rhs) = rhs.setWidth (8 * typ.size) := by
  have hlow : ∀ n ≤ 64, rhs.setWidth n = rhs.extractLsb' 0 n := fun n hn =>
    BitVec.setWidth_eq_extractLsb' hn
  rw [MemTyp.field, hlow _ (by cases typ <;> decide)]
  cases typ
  case b | bu =>
    have hoff : 8 * (addr.toNat % 8 / 1 * 1) = 8 * (addr.toNat % 8) := by omega
    show (BitVec.replicate 8 (rhs.extractLsb' 0 8)).extractLsb' (8 * (addr.toNat % 8 / 1 * 1)) 8 = _
    rw [hoff]
    exact extract_replicate (n := 8) _ (by omega)
  case h | hu =>
    have hoff : 8 * (addr.toNat % 8 / 2 * 2) = 16 * (addr.toNat % 8 / 2) := by omega
    show (BitVec.replicate 4 (rhs.extractLsb' 0 16)).extractLsb'
        (8 * (addr.toNat % 8 / 2 * 2)) 16 = _
    rw [hoff]
    exact extract_replicate (n := 4) _ (by omega)
  case w | wu =>
    have hoff : 8 * (addr.toNat % 8 / 4 * 4) = 32 * (addr.toNat % 8 / 4) := by omega
    show (BitVec.replicate 2 (rhs.extractLsb' 0 32)).extractLsb'
        (8 * (addr.toNat % 8 / 4 * 4)) 32 = _
    rw [hoff]
    exact extract_replicate (n := 2) _ (by omega)
  case d | x =>
    show rhs.extractLsb' (8 * (addr.toNat % 8 / 8 * 8)) 64 = _
    rw [show addr.toNat % 8 / 8 * 8 = 0 by omega]
    rfl

theorem atomic_cases (hatomic : typ = .w ∨ typ = .d) (haligned : addr.toNat % typ.size = 0) :
    (typ = .w ∧ addr.getLsbD 2 = false ∧ typ.offset addr = 0) ∨
    (typ = .w ∧ addr.getLsbD 2 = true ∧ typ.offset addr = 4) ∨
    (typ = .d ∧ addr.getLsbD 2 = false ∧ typ.offset addr = 0) := by
  have hoff := MemTyp.offset_of_aligned haligned
  have h2 := (getLsbD_low addr).2.2
  rw [hoff, h2]
  rcases hatomic with rfl | rfl
  · have hfour : addr.toNat % 4 = 0 := haligned
    by_cases h : 4 ≤ addr.toNat % 8
    · exact .inr (.inl ⟨rfl, decide_eq_true h, by omega⟩)
    · exact .inl ⟨rfl, decide_eq_false h, by omega⟩
  · have height : addr.toNat % 8 = 0 := haligned
    exact .inr (.inr ⟨rfl, decide_eq_false (by omega), height⟩)

theorem toNat_upper (w : Word) : (w.extractLsb' 32 32).toNat = w.toNat / 2 ^ 32 := by
  have hlt := w.isLt
  rw [BitVec.extractLsb'_toNat, Nat.shiftRight_eq_div_pow]
  omega

theorem toNat_lower (w : Word) : (w.extractLsb' 0 32).toNat = w.toNat % 2 ^ 32 := by
  rw [BitVec.extractLsb'_toNat, Nat.shiftRight_zero]

/-- Two numbers with nothing at bit 31 add without a carry into the upper half. -/
theorem upper_add {x y : Word} (hx : x.getLsbD 31 = false) (hy : y.getLsbD 31 = false) :
    (x + y).extractLsb' 32 32 = x.extractLsb' 32 32 + y.extractLsb' 32 32 := by
  have hbit : ∀ w : Word, w.getLsbD 31 = false → w.toNat / 2 ^ 31 % 2 = 0 := by
    intro w hw
    rw [BitVec.getLsbD, Nat.testBit_eq_decide_div_mod_eq, decide_eq_false_iff_not] at hw
    omega
  have hx' := hbit x hx
  have hy' := hbit y hy
  have hltx := x.isLt
  have hlty := y.isLt
  apply BitVec.eq_of_toNat_eq
  rw [toNat_upper, BitVec.toNat_add, BitVec.toNat_add, toNat_upper, toNat_upper]
  omega

section

variable (hatomic : typ = .w ∨ typ = .d) (haligned : addr.toNat % typ.size = 0)
include hatomic haligned

/-- The halves are added apart when the upper half is meant. -/
theorem field_adderOut :
    typ.field addr (adderOut addr lhs rhs) = typ.field addr lhs + typ.field addr rhs := by
  have hlow : addr.getLsbD 2 = false → adderOut addr lhs rhs = lhs + rhs := by
    intro h2
    have hmask : mask addr = BitVec.allOnes 64 := by
      rw [mask, h2]
      rfl
    rw [adderOut, hmask, BitVec.and_allOnes, BitVec.and_allOnes]
  obtain ⟨rfl, h2, hoff⟩ | ⟨rfl, h2, hoff⟩ | ⟨rfl, h2, hoff⟩ := atomic_cases hatomic haligned
  · rw [MemTyp.field, MemTyp.field, MemTyp.field, hoff, hlow h2]
    exact BitVec.extractLsb'_add (by decide)
  · have hmask : mask addr = 0xFFFFFFFF7FFFFFFF#64 := by
      rw [mask, h2]
      rfl
    have hcut : ∀ w : Word, (w &&& mask addr).getLsbD 31 = false := by
      intro w
      rw [hmask, BitVec.getLsbD_and, show (0xFFFFFFFF7FFFFFFF#64).getLsbD 31 = false by decide,
        Bool.and_false]
    have hupper : ∀ w : Word, (w &&& mask addr).extractLsb' 32 32 = w.extractLsb' 32 32 := by
      intro w
      refine BitVec.eq_of_getLsbD_eq fun i hi => ?_
      have hone : ∀ i < 32, (0xFFFFFFFF7FFFFFFF#64).getLsbD (32 + i) = true := by decide
      rw [BitVec.getLsbD_extractLsb', BitVec.getLsbD_extractLsb', hmask, BitVec.getLsbD_and,
        hone i hi, Bool.and_true]
    rw [MemTyp.field, MemTyp.field, MemTyp.field, hoff, adderOut]
    refine (upper_add (hcut lhs) (hcut rhs)).trans ?_
    rw [hupper, hupper]
    rfl
  · rw [MemTyp.field, MemTyp.field, MemTyp.field, hoff, hlow h2]
    exact BitVec.extractLsb'_add (by decide)

theorem lt_eq :
    lt addr typ lhs rhs = (typ.field addr lhs).ult (typ.field addr rhs) := by
  obtain ⟨rfl, h2, hoff⟩ | ⟨rfl, h2, hoff⟩ | ⟨rfl, h2, hoff⟩ := atomic_cases hatomic haligned
  · rw [lt, MemTyp.field, MemTyp.field, hoff, h2]
    rfl
  · rw [lt, MemTyp.field, MemTyp.field, hoff, h2]
    rfl
  · have hself : ∀ w : Word, w.extractLsb' (8 * 0) 64 = w := fun w => BitVec.extractLsb'_eq_self
    rw [lt, MemTyp.field, MemTyp.field, hoff, if_neg (by decide)]
    refine Eq.trans ?_ (congrArg₂ BitVec.ult (hself lhs) (hself rhs)).symm
    rw [Bool.eq_iff_iff]
    simp only [Bool.or_eq_true, Bool.and_eq_true, BitVec.ult_eq_decide, decide_eq_true_eq,
      beq_iff_eq, ← BitVec.toNat_inj, toNat_upper, toNat_lower]
    omega

theorem cmpBit_eq (w : Word) : cmpBit addr typ w = (typ.field addr w).msb := by
  obtain ⟨rfl, h2, hoff⟩ | ⟨rfl, h2, hoff⟩ | ⟨rfl, h2, hoff⟩ := atomic_cases hatomic haligned <;>
    rw [cmpBit, BitVec.msb_eq_getLsbD_last, MemTyp.field, hoff, BitVec.getLsbD_extractLsb']
  · rw [h2]
    rfl
  · rw [h2]
    rfl
  · rfl

theorem less_eq :
    less addr cmd typ lhs rhs = if sgned cmd then (typ.field addr lhs).slt (typ.field addr rhs)
      else (typ.field addr lhs).ult (typ.field addr rhs) := by
  rw [less, lt_eq lhs rhs hatomic haligned, cmpBit_eq hatomic haligned, cmpBit_eq hatomic haligned]
  by_cases heq : (typ.field addr lhs).msb = (typ.field addr rhs).msb
  · rw [if_pos (by simpa using heq), BitVec.slt_eq_ult_of_msb_eq heq]
    exact (ite_self _).symm
  · rw [if_neg (by simpa using heq), BitVec.slt_eq_not_ult_of_msb_neq heq,
      BitVec.ult_eq_msb_of_msb_neq heq, Bool.eq_not_of_ne heq]

end

theorem field_wordData (hatomic : typ = .w ∨ typ = .d) :
    typ.field addr (StoreGen.wordData typ rhs) = rhs.setWidth (8 * typ.size) := by
  have hsame : StoreGen.wordData typ rhs = StoreGen.data typ rhs := by
    rcases hatomic with rfl | rfl <;>
      rw [StoreGen.data, if_neg (by decide), if_neg (by decide)]
  rw [hsame, field_data]

/-- The comparator picks the smaller or the larger of the two. -/
theorem field_ite (b : Bool) (x y : Word) :
    typ.field addr (if b then x else y) = if b then typ.field addr x else typ.field addr y := by
  cases b <;> rfl

theorem result_min (hcmd : cmd = .xaMin ∨ cmd = .xaMinu) : result addr cmd typ lhs rhs =
    if less addr cmd typ lhs (StoreGen.wordData typ rhs) then lhs else StoreGen.data typ rhs := by
  rcases hcmd with rfl | rfl
  · cases h : less addr .xaMin typ lhs (StoreGen.wordData typ rhs) <;> simp [result, h, min, max]
  · cases h : less addr .xaMinu typ lhs (StoreGen.wordData typ rhs) <;> simp [result, h, min, max]

theorem result_max (hcmd : cmd = .xaMax ∨ cmd = .xaMaxu) : result addr cmd typ lhs rhs =
    if less addr cmd typ lhs (StoreGen.wordData typ rhs) then StoreGen.data typ rhs else lhs := by
  rcases hcmd with rfl | rfl
  · cases h : less addr .xaMax typ lhs (StoreGen.wordData typ rhs) <;> simp [result, h, min, max]
  · cases h : less addr .xaMaxu typ lhs (StoreGen.wordData typ rhs) <;> simp [result, h, min, max]

theorem field_result (h : AccessOk cmd typ addr) : typ.field addr (result addr cmd typ lhs rhs)
    = cmd.newValue (typ.field addr lhs) (rhs.setWidth (8 * typ.size)) := by
  have hword : cmd.isAMO = true → typ.field addr (StoreGen.wordData typ rhs)
      = rhs.setWidth (8 * typ.size) := fun ha => field_wordData rhs (h.atomic ha)
  have hless : cmd.isAMO = true → less addr cmd typ lhs (StoreGen.wordData typ rhs)
      = if sgned cmd then (typ.field addr lhs).slt (rhs.setWidth (8 * typ.size))
        else (typ.field addr lhs).ult (rhs.setWidth (8 * typ.size)) := by
    intro ha
    rw [less_eq lhs _ (h.atomic ha) h.aligned, hword ha]
  cases cmd
  case xaAdd =>
    refine (field_adderOut lhs _ (h.atomic rfl) h.aligned).trans ?_
    rw [hword rfl]
    rfl
  case xaAnd =>
    rw [MemCmd.newValue, ← hword rfl]
    exact BitVec.extractLsb'_and ..
  case xaOr =>
    rw [MemCmd.newValue, ← hword rfl]
    exact BitVec.extractLsb'_or ..
  case xaXor =>
    rw [MemCmd.newValue, ← hword rfl]
    exact BitVec.extractLsb'_xor ..
  case xaMin =>
    rw [result_min _ _ (.inl rfl), field_ite, hless rfl, field_data]
    rfl
  case xaMinu =>
    rw [result_min _ _ (.inr rfl), field_ite, hless rfl, field_data]
    rfl
  case xaMax =>
    rw [result_max _ _ (.inl rfl), field_ite, hless rfl, field_data]
    rfl
  case xaMaxu =>
    rw [result_max _ _ (.inr rfl), field_ite, hless rfl, field_data]
    rfl
  all_goals
    refine Eq.trans (congrArg (typ.field addr) ?_) (field_data rhs)
    simp [result, min, max]

/-- **A write replaces the bytes of its access** and no others. -/
theorem getLsbD_out (h : AccessOk cmd typ addr) {j : ℕ} (hj : j < 64) :
    (out addr cmd typ lhs rhs).getLsbD j =
      if typ.offset addr ≤ j / 8 ∧ j / 8 < typ.offset addr + typ.size then
        (cmd.newValue (typ.field addr lhs) (rhs.setWidth (8 * typ.size))).getLsbD
          (j - 8 * typ.offset addr)
      else lhs.getLsbD j := by
  rw [out, BitVec.getLsbD_or, BitVec.getLsbD_and, BitVec.getLsbD_and, BitVec.getLsbD_not,
    getLsbD_wmask hj, decide_eq_true hj]
  by_cases hin : typ.offset addr ≤ j / 8 ∧ j / 8 < typ.offset addr + typ.size
  · rw [if_pos hin, decide_eq_true hin, ← field_result lhs rhs h, MemTyp.field,
      BitVec.getLsbD_extractLsb', decide_eq_true (show j - 8 * typ.offset addr < _ by omega),
      show 8 * typ.offset addr + (j - 8 * typ.offset addr) = j by omega]
    simp
  · rw [if_neg hin, decide_eq_false hin]
    simp

theorem field_out (h : AccessOk cmd typ addr) : typ.field addr (out addr cmd typ lhs rhs) =
    cmd.newValue (typ.field addr lhs) (rhs.setWidth (8 * typ.size)) := by
  refine BitVec.eq_of_getLsbD_eq fun j hj => ?_
  have hfit := typ.offset_add_size_le addr
  rw [MemTyp.field, BitVec.getLsbD_extractLsb', decide_eq_true hj, Bool.true_and,
    getLsbD_out lhs rhs h (by omega), if_pos (by omega), Nat.add_sub_cancel_left]

/-- The ALU does not look at how a load extends what it reads. -/
theorem out_wu : out addr cmd .wu lhs rhs = out addr cmd .w lhs rhs := rfl

theorem out_x : out addr cmd .x lhs rhs = out addr cmd .d lhs rhs := rfl

/-- **The ALU is exact.** With an atomic on a word or a double word, whichever of the words it is,
the access becomes what the operation makes of it and of the operand; with a store it becomes the
data. Nothing else in the double word changes. -/
theorem out_exact (addr : Word) (cmd : MemCmd) (typ : MemTyp) (lhs rhs : Word)
    (haligned : addr.toNat % typ.size = 0) :
    (cmd.isAMO = true → typ = .w ∨ typ = .wu ∨ typ = .d →
      typ.field addr (out addr cmd typ lhs rhs) =
          cmd.newValue (typ.field addr lhs) (rhs.setWidth (8 * typ.size)) ∧
        ∀ j < 64, ¬(typ.offset addr ≤ j / 8 ∧ j / 8 < typ.offset addr + typ.size) →
          (out addr cmd typ lhs rhs).getLsbD j = lhs.getLsbD j) ∧
    (cmd = .xwr ∨ cmd = .xsc →
      typ.field addr (out addr cmd typ lhs rhs) = rhs.setWidth (8 * typ.size) ∧
        ∀ j < 64, ¬(typ.offset addr ≤ j / 8 ∧ j / 8 < typ.offset addr + typ.size) →
          (out addr cmd typ lhs rhs).getLsbD j = lhs.getLsbD j) := by
  -- an access the instruction set has
  have hok {typ : MemTyp} (h : AccessOk cmd typ addr) :
      typ.field addr (out addr cmd typ lhs rhs) =
          cmd.newValue (typ.field addr lhs) (rhs.setWidth (8 * typ.size)) ∧
        ∀ j < 64, ¬(typ.offset addr ≤ j / 8 ∧ j / 8 < typ.offset addr + typ.size) →
          (out addr cmd typ lhs rhs).getLsbD j = lhs.getLsbD j :=
    ⟨field_out lhs rhs h, fun j hj hout => (getLsbD_out lhs rhs h hj).trans (if_neg hout)⟩
  refine ⟨?_, ?_⟩
  · intro hamo htyp
    rcases htyp with rfl | rfl | rfl
    · exact hok ⟨by decide, haligned, fun _ => .inl rfl⟩
    · rw [out_wu]
      exact @hok .w ⟨by decide, haligned, fun _ => .inl rfl⟩
    · exact hok ⟨by decide, haligned, fun _ => .inr rfl⟩
  · intro hcmd
    have hamo : cmd.isAMO = false := by
      rcases hcmd with rfl | rfl <;> rfl
    have hdata {w : ℕ} (x y : BitVec w) : cmd.newValue x y = y := by
      rcases hcmd with rfl | rfl <;> rfl
    rw [← hdata (typ.field addr lhs) (rhs.setWidth (8 * typ.size))]
    by_cases hx : typ = .x
    · subst hx
      rw [out_x]
      exact @hok .d ⟨by decide, haligned, fun h => absurd h (by simp [hamo])⟩
    · exact hok ⟨hx, haligned, fun h => absurd h (by simp [hamo])⟩

/-- The smaller of -1 and 5, in the upper half. -/
theorem out_exact_min : MemTyp.field .w 4#64
    (out 4#64 .xaMin .w 0xffffffff00000000#64 5#64) = 0xffffffff#32 :=
  ((out_exact 4#64 .xaMin .w 0xffffffff00000000#64 5#64 (by decide)).1 rfl (.inl rfl)).1

/-! ### The memory behind the double words -/

variable {ι : Type} [DecidableEq ι] (m : ByteMem ι) (l : ι)

/-- The bytes of an access to line `l`. -/
def access (typ : MemTyp) (addr : Word) : Access ι := ⟨l, typ.offset addr, typ.size⟩

/-- What a store or an atomic does to the memory. -/
def write (cmd : MemCmd) (typ : MemTyp) (addr rhs : Word) : Write ι :=
  ⟨access l typ addr, (cmd.newValue (m.read (access l typ addr))
    (rhs.setWidth (8 * typ.size))).setWidth 64⟩

omit [DecidableEq ι] in
theorem field_word (typ : MemTyp) (addr : Word) :
    typ.field addr (m.word l) = m.read (access l typ addr) :=
  m.extract_word (a := access l typ addr) (typ.offset_add_size_le addr)

/-- **The ALU computes the double word after the write** from the one before. -/
theorem out_word (h : AccessOk cmd typ addr) :
    out addr cmd typ (m.word l) rhs = (m.perform (write m l cmd typ addr rhs)).word l := by
  refine BitVec.eq_of_getLsbD_eq fun j hj => ?_
  rw [getLsbD_out _ _ h hj, field_word]
  refine Eq.trans ?_ (ByteMem.getLsbD_word_perform (w := write m l cmd typ addr rhs) hj).symm
  have hfit := typ.offset_add_size_le addr
  by_cases hin : typ.offset addr ≤ j / 8 ∧ j / 8 < typ.offset addr + typ.size
  · rw [if_pos hin, if_pos (show (write m l cmd typ addr rhs).Has (j / 8) from hin)]
    refine Eq.trans ?_ (BitVec.getLsbD_setWidth ..).symm
    rw [decide_eq_true (show j - 8 * (write m l cmd typ addr rhs).offset < 64 by omega),
      Bool.true_and]
    rfl
  · rw [if_neg hin, if_neg (show ¬(write m l cmd typ addr rhs).Has (j / 8) from hin)]
    rfl

/-- An atomic add to the upper word, whose neighbour is about to overflow. -/
example : out 4#64 .xaAdd .w 0x00000001ffffffff#64 1#64 = 0x00000002ffffffff#64 := by decide

end AMOALU

end RiscvSoc
