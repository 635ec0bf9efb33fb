import Mathlib.Data.List.Nodup
import RiscvSoc.Lib.Bits
import RiscvSoc.Lib.Parity

/-!
# Error-correcting codes

`ParityCode`, `SECCode` and `SECDEDCode` from `rocket/src/main/scala/ecc.scala`. A word is the
number its bits stand for, next to its width.

The places of a code word are counted from one. A place whose number is a power of two holds a check
bit, the parity of the data bits at the places in whose number that power occurs; the other places
hold the data, in order. A decoder forms each parity again, check bit included: the results are the
bits of the syndrome.

The syndrome is the exclusive or of the numbers of the places that are up. Everything follows from
this: it is zero for a code word, and flipping the bit at a place adds the number of that place.
-/

namespace RiscvSoc

open Bits

/-! ### `ParityCode` -/

namespace ParityCode

/-- `x.xorR`, for a word of width `n`. -/
def parity (n x : ℕ) : Bool := xorR ((List.range n).map x.testBit)

/-- `Cat(x.xorR, x)`. -/
def encode (n x : ℕ) : ℕ := cat (parity n x).toNat n x

/-- `y(y.getWidth-2,0)`, for a word `y` of width `n + 1`. -/
def uncorrected (n y : ℕ) : ℕ := y % 2 ^ n

def uncorrectable (n y : ℕ) : Bool := parity (n + 1) y

end ParityCode

/-! ### `SECCode` -/

namespace SECCode

/-- The width of the code word for `k` bits of data. -/
def width (k : ℕ) : ℕ :=
  let m := log2Up k + 1 - if k.isPowerOfTwo then 0 else 1
  k + m + if 2 ^ m < m + k + 1 then 1 else 0

/-- The data bit at place `i`. -/
def mapping (i : ℕ) : ℕ := i - 1 - log2Up i

/-- The places of a word of width `n`. -/
def places (n : ℕ) : List ℕ := (List.range n).map (· + 1)

/-- The bit at place `i` of the code word for `x`, which has `n` places. -/
def codeBit (n x i : ℕ) : Bool :=
  if i.isPowerOfTwo then
    xorR (((places n).filter fun j => decide (j ≠ i) && decide (j &&& i ≠ 0)).map
      fun j => x.testBit (mapping j))
  else x.testBit (mapping i)

/-- `encode`, for `k` bits of data. -/
def encode (k x : ℕ) : ℕ := vecToBits ((places (width k)).map (codeBit (width k) x))

variable (n y : ℕ)

/-- `s`, for a word of width `n`. -/
def syndrome : ℕ :=
  vecToBits ((List.range (log2Up n)).map fun p =>
    xorR (((places n).filter fun j => decide (j &&& 2 ^ p ≠ 0)).map fun j => y.testBit (j - 1)))

/-- The data bits of a word. -/
def swizzle (z : ℕ) : ℕ :=
  vecToBits (((places n).filter fun i => !decide i.isPowerOfTwo).map fun i => z.testBit (i - 1))

def uncorrected : ℕ := swizzle n y

def corrected : ℕ := swizzle n (((y <<< 1) ^^^ (1 <<< syndrome n y)) >>> 1)

def correctable : Bool := decide (syndrome n y ≠ 0)

def uncorrectable : Bool := false

end SECCode

/-! ### `SECDEDCode` -/

namespace SECDEDCode

def width (k : ℕ) : ℕ := SECCode.width k + 1

def encode (k x : ℕ) : ℕ := ParityCode.encode (SECCode.width k) (SECCode.encode k x)

variable (n y : ℕ)

/-- What `SECCode` decodes of a word of width `n + 1`: `x(x.getWidth-2,0)`. -/
def secWord : ℕ := y % 2 ^ n

def uncorrected : ℕ := SECCode.uncorrected n (secWord n y)

def corrected : ℕ := SECCode.corrected n (secWord n y)

def correctable : Bool := ParityCode.uncorrectable n y

def uncorrectable : Bool := !ParityCode.uncorrectable n y && SECCode.correctable n (secWord n y)

end SECDEDCode

/-! ### The width -/

namespace SECCode

variable {k : ℕ} {n i : ℕ}

/-- The first guess at the number of check bits is the number itself, or one less. -/
theorem exists_guess (hk : 0 < k) :
    ∃ m, (log2Up k + 1 - if k.isPowerOfTwo then 0 else 1) = m + 1 ∧ 2 ^ m < k + (m + 1) ∧
      k < 2 ^ (m + 1) := by
  by_cases hone : k = 1
  · subst hone
    exact ⟨1, by decide, by decide, by decide⟩
  · have hlog : log2Up k = Nat.clog 2 k := by rw [log2Up, if_neg hone]
    have hle := le_two_pow_log2Up k
    by_cases hpow : k.isPowerOfTwo
    · obtain ⟨j, rfl⟩ := hpow
      refine ⟨j, ?_, by omega, Nat.pow_lt_pow_right Nat.one_lt_two j.lt_succ_self⟩
      rw [hlog, Nat.clog_pow _ _ Nat.one_lt_two, if_pos ⟨j, rfl⟩, Nat.sub_zero]
    · have hpos : 0 < Nat.clog 2 k := Nat.clog_pos Nat.one_lt_two (by omega)
      obtain ⟨m, hm⟩ := Nat.exists_eq_succ_of_ne_zero hpos.ne'
      have hlow : 2 ^ m < k := (Nat.lt_clog_iff_pow_lt Nat.one_lt_two).mp (by omega)
      refine ⟨m, by rw [if_neg hpow, hlog, hm]; rfl, by omega, ?_⟩
      rw [hlog, hm] at hle
      exact lt_of_le_of_ne hle fun h => hpow ⟨m + 1, h⟩

/-- There are `r + 1` check bits, as few as can tell all places and "no error" apart. -/
theorem exists_width (hk : 0 < k) :
    ∃ r, width k = k + (r + 1) ∧ 2 ^ r < width k ∧ width k < 2 ^ (r + 1) := by
  obtain ⟨m, hm, hlow, hhigh⟩ := exists_guess hk
  have hwidth : width k = k + (m + 1) + if 2 ^ (m + 1) < m + 1 + k + 1 then 1 else 0 := by
    rw [width, hm]
  have hdouble : 2 ^ (m + 1 + 1) = 2 * 2 ^ (m + 1) := Nat.pow_succ'
  have hself : m + 1 < 2 ^ (m + 1) := Nat.lt_two_pow_self
  split at hwidth
  · exact ⟨m + 1, by omega, by omega, by omega⟩
  · exact ⟨m, by omega, by omega, by omega⟩

theorem log2Up_width {k r : ℕ} (hlow : 2 ^ r < width k) (hhigh : width k < 2 ^ (r + 1)) :
    log2Up (width k) = r + 1 := log2Up_eq hlow hhigh.le

/-! ### The places of the data -/

theorem mem_places : i ∈ places n ↔ 0 < i ∧ i ≤ n := by
  rw [places, List.mem_map]
  constructor
  · rintro ⟨j, hj, rfl⟩
    exact ⟨j.succ_pos, List.mem_range.mp hj⟩
  · rintro ⟨hpos, hle⟩
    exact ⟨i - 1, List.mem_range.mpr (by omega), by omega⟩

theorem nodup_places (n : ℕ) : (places n).Nodup :=
  List.Nodup.map Nat.succ_injective List.nodup_range

/-- The data bits are at the places that are no power of two, in order. -/
theorem map_mapping_places (n : ℕ) :
    ((places n).filter fun i => !decide i.isPowerOfTwo).map mapping =
      List.range (n - Nat.clog 2 (n + 1)) := by
  induction n with
  | zero => rfl
  | succ n ih =>
    have hplaces : places (n + 1) = places n ++ [n + 1] := by
      rw [places, List.range_succ, List.map_append]
      rfl
    have hle : Nat.clog 2 (n + 1) ≤ n :=
      (Nat.clog_le_iff_le_pow Nat.one_lt_two).mpr Nat.lt_two_pow_self
    rw [hplaces, List.filter_append, List.map_append, ih]
    by_cases hpow : (n + 1).isPowerOfTwo
    · have hclog : Nat.clog 2 (n + 1 + 1) = Nat.clog 2 (n + 1) + 1 := by
        obtain ⟨p, hp⟩ := hpow
        rw [hp, Nat.clog_pow _ _ Nat.one_lt_two]
        refine le_antisymm ?_ ?_
        · rw [Nat.clog_le_iff_le_pow Nat.one_lt_two]
          exact Nat.pow_lt_pow_right Nat.one_lt_two p.lt_succ_self
        · exact (Nat.lt_clog_iff_pow_lt Nat.one_lt_two).mpr (Nat.lt_succ_self _)
      rw [hclog, Nat.add_sub_add_right, List.filter_cons_of_neg (by simp [hpow])]
      exact List.append_nil _
    · have hclog : Nat.clog 2 (n + 1 + 1) = Nat.clog 2 (n + 1) := by
        refine ((Nat.clog_eq_clog_succ_iff Nat.one_lt_two).mpr fun h => hpow ⟨_, h.symm⟩).symm
      have hone : n + 1 ≠ 1 := fun h => hpow ⟨0, h⟩
      have hmapping : mapping (n + 1) = n - Nat.clog 2 (n + 1) := by
        rw [mapping, log2Up, if_neg hone, Nat.add_sub_cancel]
      rw [hclog, List.filter_cons_of_pos (by simp [hpow]), List.filter_nil, List.map_singleton,
        hmapping, Nat.sub_add_comm hle, List.range_succ]

theorem length_data (hk : 0 < k) : width k - Nat.clog 2 (width k + 1) = k := by
  obtain ⟨r, hwidth, hlow, hhigh⟩ := exists_width hk
  have hclog : Nat.clog 2 (width k + 1) = r + 1 := by
    refine le_antisymm ((Nat.clog_le_iff_le_pow Nat.one_lt_two).mpr hhigh) ?_
    exact (Nat.lt_clog_iff_pow_lt Nat.one_lt_two).mpr (hlow.trans (Nat.lt_succ_self _))
  omega

/-- **The data bits of a word** that has the data at its places. -/
theorem swizzle_eq {k x z : ℕ} (hk : 0 < k) (hx : x < 2 ^ k)
    (h : ∀ i ∈ places (width k), ¬i.isPowerOfTwo → z.testBit (i - 1) = x.testBit (mapping i)) :
    swizzle (width k) z = x := by
  have hbits : ((places (width k)).filter fun i => !decide i.isPowerOfTwo).map
      (fun i => z.testBit (i - 1)) = (List.range k).map x.testBit := by
    rw [← length_data hk, ← map_mapping_places, List.map_map, length_data hk]
    refine List.map_congr_left fun i hi => ?_
    obtain ⟨hmem, hpow⟩ := List.mem_filter.mp hi
    exact h i hmem (by simpa using hpow)
  rw [swizzle, hbits, vecToBits_testBit hx]

/-! ### The syndrome -/

theorem and_two_pow_ne_zero (j p : ℕ) : decide (j &&& 2 ^ p ≠ 0) = j.testBit p := by
  rw [Nat.and_two_pow]
  cases j.testBit p <;> simp

theorem testBit_syndrome (n y p : ℕ) : (syndrome n y).testBit p =
    (decide (p < log2Up n) && xorR ((places n).map fun j => j.testBit p && y.testBit (j - 1))) := by
  rw [syndrome, testBit_vecToBits_map, xorR_filter_map]
  simp only [and_two_pow_ne_zero]

/-- **Flipping the bit at a place adds the number of the place.** -/
theorem syndrome_flip (hn : n < 2 ^ log2Up n) (hi : i < n) (y : ℕ) :
    syndrome n (y ^^^ 2 ^ i) = syndrome n y ^^^ (i + 1) := by
  refine Nat.eq_of_testBit_eq fun p => ?_
  rw [Nat.testBit_xor, testBit_syndrome, testBit_syndrome]
  by_cases hp : p < log2Up n
  · rw [decide_eq_true hp, Bool.true_and, Bool.true_and]
    have hsplit : ∀ j ∈ places n, (j.testBit p && (y ^^^ 2 ^ i).testBit (j - 1)) =
        xor (j.testBit p && y.testBit (j - 1)) (decide (j = i + 1) && j.testBit p) := by
      intro j hj
      have hplace : decide (i = j - 1) = decide (j = i + 1) := by
        rw [decide_eq_decide]
        have := (mem_places.mp hj).1
        omega
      rw [Nat.testBit_xor, Nat.testBit_two_pow, hplace]
      cases j.testBit p <;> simp
    rw [List.map_congr_left hsplit, xorR_map_xor,
      xorR_map_single (nodup_places n) (mem_places.mpr ⟨i.succ_pos, hi⟩)]
  · have hhigh : (i + 1).testBit p = false :=
      Nat.testBit_lt_two_pow (Nat.lt_of_le_of_lt hi (hn.trans_le
        (Nat.pow_le_pow_right Nat.two_pos (not_lt.mp hp))))
    rw [decide_eq_false hp, hhigh]
    rfl

/-- A place in whose number a power of two occurs is that power, or holds data. -/
theorem not_isPowerOfTwo {j p : ℕ} (hj : j.testBit p = true) (hne : j ≠ 2 ^ p) :
    ¬j.isPowerOfTwo := by
  rintro ⟨q, rfl⟩
  rw [Nat.testBit_two_pow, decide_eq_true_eq] at hj
  exact hne (by rw [hj])

theorem testBit_encode {k x j : ℕ} (hj : j ∈ places (width k)) :
    (encode k x).testBit (j - 1) = codeBit (width k) x j := by
  obtain ⟨hpos, hle⟩ := mem_places.mp hj
  rw [encode, places, List.map_map, testBit_vecToBits_map,
    decide_eq_true (show j - 1 < width k by omega), Bool.true_and]
  exact congrArg (codeBit (width k) x) (Nat.sub_add_cancel hpos)

theorem encode_lt (k x : ℕ) : encode k x < 2 ^ width k := by
  have hlt := vecToBits_lt ((places (width k)).map (codeBit (width k) x))
  rwa [List.length_map, places, List.length_map, List.length_range] at hlt

/-- **A code word has no syndrome.** -/
theorem syndrome_encode (hk : 0 < k) (x : ℕ) : syndrome (width k) (encode k x) = 0 := by
  obtain ⟨r, -, hlow, hhigh⟩ := exists_width hk
  refine Nat.eq_of_testBit_eq fun p => ?_
  rw [Nat.zero_testBit, testBit_syndrome, log2Up_width hlow hhigh]
  by_cases hp : p < r + 1
  · have hmem : 2 ^ p ∈ places (width k) :=
      mem_places.mpr ⟨Nat.two_pow_pos p,
        (Nat.pow_le_pow_right Nat.two_pos (Nat.lt_succ_iff.mp hp)).trans hlow.le⟩
    -- the check bit is the parity of the data bits it is checked with
    have hcheck : codeBit (width k) x (2 ^ p) = xorR ((places (width k)).map fun j =>
        decide (j ≠ 2 ^ p) && (j.testBit p && (encode k x).testBit (j - 1))) := by
      rw [codeBit, if_pos ⟨p, rfl⟩, xorR_filter_map]
      refine congrArg xorR (List.map_congr_left fun j hj => ?_)
      rw [and_two_pow_ne_zero, Bool.and_assoc]
      by_cases hne : j = 2 ^ p
      · simp [hne]
      · cases hbit : j.testBit p with
        | false => rfl
        | true => rw [testBit_encode hj, codeBit, if_neg (not_isPowerOfTwo hbit hne)]
    rw [xorR_map_eq (nodup_places _) hmem, ← hcheck, testBit_encode hmem, Nat.testBit_two_pow_self,
      Bool.true_and, Bool.xor_self, Bool.and_false]
  · rw [decide_eq_false hp, Bool.false_and]

/-! ### Correction -/

theorem testBit_corrected (n y b : ℕ) :
    (((y <<< 1) ^^^ (1 <<< syndrome n y)) >>> 1).testBit b =
      xor (y.testBit b) (decide (syndrome n y = b + 1)) := by
  rw [Nat.testBit_shiftRight, Nat.testBit_xor, Nat.testBit_shiftLeft, Nat.one_shiftLeft,
    Nat.testBit_two_pow, Nat.add_sub_cancel_left, Nat.add_comm 1 b]
  simp

theorem corrected_encode {k x : ℕ} (hk : 0 < k) (hx : x < 2 ^ k) :
    corrected (width k) (encode k x) = x := by
  refine swizzle_eq hk hx fun i hi hpow => ?_
  rw [testBit_corrected, syndrome_encode hk, testBit_encode hi, codeBit, if_neg hpow]
  simp

theorem uncorrected_encode {k x : ℕ} (hk : 0 < k) (hx : x < 2 ^ k) :
    uncorrected (width k) (encode k x) = x := by
  refine swizzle_eq hk hx fun i hi hpow => ?_
  rw [testBit_encode hi, codeBit, if_neg hpow]

variable {k i : ℕ}

theorem width_lt (hk : 0 < k) : width k < 2 ^ log2Up (width k) := by
  obtain ⟨r, -, hlow, hhigh⟩ := exists_width hk
  rwa [log2Up_width hlow hhigh]

theorem syndrome_encode_flip (hk : 0 < k) (hi : i < width k) (x : ℕ) :
    syndrome (width k) (encode k x ^^^ 2 ^ i) = i + 1 := by
  rw [syndrome_flip (width_lt hk) hi, syndrome_encode hk, Nat.zero_xor]

/-- **One error is corrected.** -/
theorem corrected_flip {x : ℕ} (hk : 0 < k) (hx : x < 2 ^ k) (hi : i < width k) :
    corrected (width k) (encode k x ^^^ 2 ^ i) = x := by
  refine swizzle_eq hk hx fun j hj hpow => ?_
  have hbit : decide (i = j - 1) = decide (i + 1 = j - 1 + 1) := by
    rw [decide_eq_decide]
    omega
  rw [testBit_corrected, syndrome_encode_flip hk hi, Nat.testBit_xor, Nat.testBit_two_pow, hbit,
    Bool.xor_assoc, Bool.xor_self, Bool.xor_false, testBit_encode hj, codeBit, if_neg hpow]

end SECCode

/-! ### Double errors -/

namespace ParityCode

variable {n i : ℕ}

theorem parity_flip (hi : i < n) (y : ℕ) : parity n (y ^^^ 2 ^ i) = !parity n y := by
  have hsplit : ∀ j ∈ List.range n, (y ^^^ 2 ^ i).testBit j =
      xor (y.testBit j) (decide (j = i) && true) := by
    intro j _
    rw [Nat.testBit_xor, Nat.testBit_two_pow, Bool.and_true]
    exact congrArg _ (decide_eq_decide.mpr eq_comm)
  rw [parity, List.map_congr_left hsplit, xorR_map_xor,
    xorR_map_single List.nodup_range (List.mem_range.mpr hi), Bool.xor_true]
  rfl

theorem parity_encode {x : ℕ} (hx : x < 2 ^ n) : parity (n + 1) (encode n x) = false := by
  have hlow : ∀ j ∈ List.range n, (encode n x).testBit j = x.testBit j := by
    intro j hj
    have hj := List.mem_range.mp hj
    have hmod : encode n x % 2 ^ n = x := cat_mod hx
    rw [← hmod, Nat.testBit_mod_two_pow, decide_eq_true hj, Bool.true_and, hmod]
  have hhigh : (encode n x).testBit n = parity n x := by
    rw [encode, Nat.testBit_eq_decide_div_mod_eq, cat_div hx]
    cases parity n x <;> rfl
  rw [parity, List.range_succ, List.map_append, List.map_singleton, xorR_concat, hhigh,
    List.map_congr_left hlow]
  exact Bool.xor_self _

end ParityCode

namespace SECDEDCode

variable {k x i : ℕ}

theorem secWord_encode (k x : ℕ) :
    secWord (SECCode.width k) (encode k x) = SECCode.encode k x :=
  cat_mod (SECCode.encode_lt k x)

/-- What `SECCode` sees of an error. -/
theorem secWord_flip {n : ℕ} (y i : ℕ) :
    secWord n (y ^^^ 2 ^ i) = if i < n then secWord n y ^^^ 2 ^ i else secWord n y := by
  rw [secWord, Nat.xor_mod_two_pow]
  split
  · rename_i h
    rw [Nat.mod_eq_of_lt (Nat.pow_lt_pow_right Nat.one_lt_two h)]
    rfl
  · rename_i h
    rw [Nat.mod_eq_zero_of_dvd (Nat.pow_dvd_pow 2 (not_lt.mp h)), Nat.xor_zero]
    rfl

theorem correctable_encode (k x : ℕ) :
    correctable (SECCode.width k) (encode k x) = false :=
  ParityCode.parity_encode (SECCode.encode_lt k x)

theorem correctable_flip {n : ℕ} (hi : i < n + 1) (y : ℕ) :
    correctable n (y ^^^ 2 ^ i) = !correctable n y :=
  ParityCode.parity_flip hi y

theorem corrected_flip (hk : 0 < k) (hx : x < 2 ^ k) (i : ℕ) :
    corrected (SECCode.width k) (encode k x ^^^ 2 ^ i) = x := by
  rw [corrected, secWord_flip, secWord_encode]
  split
  · rename_i h
    exact SECCode.corrected_flip hk hx h
  · exact SECCode.corrected_encode hk hx

theorem syndrome_flip_flip {j : ℕ} (hk : 0 < k) (hi : i < width k) (hj : j < width k)
    (hne : i ≠ j) (x : ℕ) : SECCode.syndrome (SECCode.width k)
      (secWord (SECCode.width k) (encode k x ^^^ 2 ^ i ^^^ 2 ^ j)) ≠ 0 := by
  rw [secWord_flip, secWord_flip, secWord_encode]
  rw [width] at hi hj
  have hlt := SECCode.width_lt hk
  by_cases hin : i < SECCode.width k
  · rw [if_pos hin]
    by_cases hjn : j < SECCode.width k
    · rw [if_pos hjn, SECCode.syndrome_flip hlt hjn, SECCode.syndrome_encode_flip hk hin]
      intro h
      exact hne (Nat.succ.inj (Nat.xor_eq_zero_iff.mp h))
    · rw [if_neg hjn, SECCode.syndrome_encode_flip hk hin]
      exact Nat.succ_ne_zero i
  · have hjn : j < SECCode.width k := by omega
    rw [if_neg hin, if_pos hjn, SECCode.syndrome_encode_flip hk hjn]
    exact Nat.succ_ne_zero j

end SECDEDCode

/-- **One error is corrected, and two are detected.** For every width and every word: a code word
decodes to its data without a flag; with any one bit flipped, the corrected output still is the
data, and the word is flagged as correctable; with any two bits flipped, the double-error detecting
code flags the word as uncorrectable and not as correctable. -/
theorem ecc_corrects :
    (∀ k x, 0 < k → x < 2 ^ k →
      SECCode.uncorrected (SECCode.width k) (SECCode.encode k x) = x ∧
      SECCode.corrected (SECCode.width k) (SECCode.encode k x) = x ∧
      SECCode.correctable (SECCode.width k) (SECCode.encode k x) = false ∧
      SECCode.uncorrectable = false ∧
      ∀ i < SECCode.width k,
        SECCode.corrected (SECCode.width k) (SECCode.encode k x ^^^ 2 ^ i) = x ∧
        SECCode.correctable (SECCode.width k) (SECCode.encode k x ^^^ 2 ^ i) = true) ∧
    ∀ k x, 0 < k → x < 2 ^ k →
      SECDEDCode.uncorrected (SECCode.width k) (SECDEDCode.encode k x) = x ∧
      SECDEDCode.corrected (SECCode.width k) (SECDEDCode.encode k x) = x ∧
      SECDEDCode.correctable (SECCode.width k) (SECDEDCode.encode k x) = false ∧
      SECDEDCode.uncorrectable (SECCode.width k) (SECDEDCode.encode k x) = false ∧
      ∀ i < SECDEDCode.width k,
        SECDEDCode.corrected (SECCode.width k) (SECDEDCode.encode k x ^^^ 2 ^ i) = x ∧
        SECDEDCode.correctable (SECCode.width k) (SECDEDCode.encode k x ^^^ 2 ^ i) = true ∧
        SECDEDCode.uncorrectable (SECCode.width k) (SECDEDCode.encode k x ^^^ 2 ^ i) = false ∧
        ∀ j < SECDEDCode.width k, i ≠ j →
          SECDEDCode.correctable (SECCode.width k)
            (SECDEDCode.encode k x ^^^ 2 ^ i ^^^ 2 ^ j) = false ∧
          SECDEDCode.uncorrectable (SECCode.width k)
            (SECDEDCode.encode k x ^^^ 2 ^ i ^^^ 2 ^ j) = true := by
  refine ⟨fun k x hk hx => ?_, fun k x hk hx => ?_⟩
  · refine ⟨SECCode.uncorrected_encode hk hx, SECCode.corrected_encode hk hx, ?_, rfl, ?_⟩
    · rw [SECCode.correctable, SECCode.syndrome_encode hk]
      rfl
    · intro i hi
      refine ⟨SECCode.corrected_flip hk hx hi, ?_⟩
      rw [SECCode.correctable, SECCode.syndrome_encode_flip hk hi]
      exact decide_eq_true (Nat.succ_ne_zero i)
  · have hclean := SECDEDCode.correctable_encode k x
    refine ⟨?_, ?_, hclean, ?_, fun i hi => ⟨SECDEDCode.corrected_flip hk hx i, ?_, ?_, ?_⟩⟩
    · rw [SECDEDCode.uncorrected, SECDEDCode.secWord_encode, SECCode.uncorrected_encode hk hx]
    · rw [SECDEDCode.corrected, SECDEDCode.secWord_encode, SECCode.corrected_encode hk hx]
    · rw [SECDEDCode.uncorrectable, SECDEDCode.secWord_encode, SECCode.correctable,
        SECCode.syndrome_encode hk]
      exact Bool.and_false _
    · rw [SECDEDCode.correctable_flip hi, hclean]
      rfl
    · have hone := SECDEDCode.correctable_flip hi (SECDEDCode.encode k x)
      rw [hclean, SECDEDCode.correctable] at hone
      rw [SECDEDCode.uncorrectable, hone]
      rfl
    · intro j hj hne
      have htwo : SECDEDCode.correctable (SECCode.width k)
          (SECDEDCode.encode k x ^^^ 2 ^ i ^^^ 2 ^ j) = false := by
        rw [SECDEDCode.correctable_flip hj, SECDEDCode.correctable_flip hi, hclean]
        rfl
      refine ⟨htwo, ?_⟩
      rw [SECDEDCode.correctable] at htwo
      rw [SECDEDCode.uncorrectable, htwo, SECCode.correctable,
        decide_eq_true (SECDEDCode.syndrome_flip_flip hk hi hj hne x)]
      rfl

end RiscvSoc
