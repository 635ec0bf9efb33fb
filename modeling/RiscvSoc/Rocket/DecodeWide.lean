import Mathlib.Order.CompletePartialOrder
import RiscvSoc.Rocket.DecodeCover

/-!
# Tables of more than 63 variables

`SimplifyDC` asserts at its end that its cover is right. The assertion holds for every table of up
to 63 variables, whose terms are all `Term.Low`, for every table whose minterms are, and for every
table without maxterms: there nothing can be wrong with a term, and it remains that none is lost.

From 64 variables on there is a table for which the assertion fails: one minterm, all words without
bit 63, and one maxterm, all words below `2 ^ 64` with it. The search for an implicit don't-care
comes to bit 63, adds `-2 ^ 63` to the minterm, and finds that what it gets meets no maxterm, being
negative. So the minterm is merged with it, and the result, which leaves bit 63 open and every bit
above it too, is the cover.
-/

namespace RiscvSoc

open Bits

namespace SimplifyDC

variable {ord : SetOrder} {minterms maxterms : List Term} {w : ℕ}

/-- The minimiser is right about a table: whatever the order of sets is, it returns terms that cover
every point of every minterm and no point of any maxterm. -/
def Sound (bits : ℕ) (minterms maxterms : List Term) : Prop :=
  ∀ ord, ∃ cover, apply ord minterms maxterms bits = some cover ∧
    (∀ t ∈ minterms, ∀ x ∈ t.points, ∃ p ∈ cover, x ∈ p.points) ∧
    ∀ p ∈ cover, ∀ u ∈ maxterms, Disjoint p.points u.points

/-- What a table is made of: cubes, and no point in both a minterm and a maxterm. -/
structure Table (bits : ℕ) (minterms maxterms : List Term) : Prop where
  min_ok : ∀ t ∈ minterms, t.Ok bits
  max_ok : ∀ t ∈ maxterms, t.Ok bits
  disjoint : ∀ t ∈ minterms, ∀ u ∈ maxterms, Disjoint t.points u.points

theorem sound_of_low (h : Table w minterms maxterms) (hlow : ∀ t ∈ minterms, t.Low w) :
    Sound w minterms maxterms := by
  intro ord
  obtain ⟨cover, happly, hcover⟩ := apply_spec ord hlow h.min_ok h.max_ok
    fun t ht u hu => Bool.eq_false_iff.mpr fun hmeet => by
      obtain ⟨x, hx⟩ := (Term.intersects_iff (h.max_ok u hu) (h.min_ok t ht)).mp hmeet
      exact Set.disjoint_left.mp (h.disjoint t ht u hu) hx.2 hx.1
  exact ⟨cover, happly, hcover.minterms, fun p hp u hu =>
    Set.disjoint_left.mpr fun x hx => hcover.allowed p hp hx u hu⟩

/-! ### Tables without maxterms -/

/-- In column `j`, the value has `j` ones or none. -/
def Counted (j : ℕ) (t : Term) : Prop :=
  0 ≤ t.value ∧ (t.value = 0 ∨ BigInt.bitCount t.value = j)

theorem merges_counted : Merges Counted := fun {j a x} ha hx hs => by
  obtain ⟨v, _, k, hva, hvx, rfl⟩ := Term.exists_add_of_similar ha.1 hx.1 hs
  generalize a.mask = m at hva hvx
  subst hva hvx
  have hne : ((v + 2 ^ k : ℕ) : ℤ) ≠ 0 := by
    have := Nat.two_pow_pos k
    omega
  have hones : Bits.bitCount (v + 2 ^ k) = j + 1 := hx.2.resolve_left hne
  have hclear : v.testBit k = false := by
    rcases ha.2 with hzero | hj
    · rw [Int.natCast_eq_zero.mp hzero, Nat.zero_testBit]
    · exact testBit_eq_false_of_bitCount (hones.trans (congrArg (· + 1) hj.symm))
  rw [Term.merge_eq hclear]
  exact ⟨ha, Term.covers_lor v m _⟩

theorem lor_longBit {v : ℕ} {i : ℕ} (h : (v : ℤ).land (longBit i) = 0) :
    (v : ℤ).lor (longBit i) = v + longBit i := by
  rcases Nat.lt_or_ge (i % 64) 63 with hbit | hbit
  · rw [longBit_of_lt hbit] at h ⊢
    have hclear : v.testBit (i % 64) = false := by
      have hand : v &&& 2 ^ (i % 64) = 0 := Int.natCast_eq_zero.mp h
      have := and_two_pow_beq v (i % 64)
      rw [hand] at this
      simpa using this.symm
    exact_mod_cast congrArg Int.ofNat (add_two_pow_of_testBit hclear).symm
  · have hsign : i % 64 = 63 := by have := Nat.mod_lt i (by decide : 0 < 64); omega
    rw [longBit_sign hsign] at h ⊢
    have hlt : v < 2 ^ 63 := ldiff_sign.mp (Int.natCast_eq_zero.mp h)
    have hrest : (2 ^ 63 - 1 : ℕ).ldiff v = 2 ^ 63 - (v + 1) := by
      refine Nat.eq_of_testBit_eq fun b => ?_
      rw [Nat.testBit_ldiff, Nat.testBit_two_pow_sub_one, Nat.testBit_two_pow_sub_succ hlt]
    change Int.negSucc ((2 ^ 63 - 1 : ℕ).ldiff v) = _
    rw [hrest]
    omega

theorem exists_first {f : ℕ → Option Term} {t : Term} (h : (List.range w).findSome? f = some t) :
    ∃ i, f i = some t ∧ ∀ b < i, f b = none := by
  obtain ⟨before, i, after, hrange, hi, hfirst⟩ := List.findSome?_eq_some_iff.mp h
  rw [List.range_eq_range'] at hrange
  obtain ⟨k, -, rfl, hafter⟩ := List.range'_eq_append_iff.mp hrange
  obtain ⟨hk, -⟩ := List.range'_eq_cons_iff.mp hafter.symm
  exact ⟨i, hi, fun b hb => hfirst b (List.mem_range'_1.mpr (by omega))⟩

theorem grows_counted : Grows Counted [] w where
  above {j a dc} ha hdc := by
    obtain ⟨v, hv⟩ := Int.eq_ofNat_of_zero_le ha.1
    obtain ⟨i, -, hdc⟩ := List.exists_of_findSome?_eq_some hdc
    obtain ⟨hif, -⟩ := Option.filter_eq_some_iff.mp hdc
    simp only [Bool.true_and, Bool.not_true, Bool.false_and, Bool.false_eq_true, if_false] at hif
    split at hif
    case isFalse => cases hif
    case isTrue hzero =>
      cases hif
      have hclear (b : ℕ) : (a.value.testBit b && (longBit i).testBit b) = false := by
        have hor := int_eq_zero_iff.mp (beq_iff_eq.mp hzero) b
        rw [Int.testBit_land, Int.testBit_lor] at hor
        revert hor
        cases a.value.testBit b <;> cases (longBit i).testBit b <;> simp
      have hand : a.value.land (longBit i) = 0 :=
        int_eq_zero_iff.mpr fun b => (Int.testBit_land ..).trans (hclear b)
      have hbit : a.value.lor (longBit i) - a.value = longBit i := by
        rw [hv] at hand ⊢
        rw [lor_longBit hand, add_sub_cancel_left]
      have hvalue : (a.value.lor (longBit i)).ldiff (longBit i) = a.value := by
        refine int_eq_of_testBit fun b => ?_
        have := hclear b
        rw [Int.testBit_ldiff, Int.testBit_lor]
        revert this
        cases a.value.testBit b <;> cases (longBit i).testBit b <;> simp
      rw [Term.merge]
      simp only [hbit, hvalue]
      exact ⟨ha, Term.covers_lor ..⟩
  below {j a dc} ha hdc := by
    obtain ⟨v, hv⟩ := Int.eq_ofNat_of_zero_le ha.1
    obtain ⟨m, hm⟩ : ∃ m, m = a.mask := ⟨_, rfl⟩
    obtain rfl : a = ⟨v, m⟩ := by rw [← hv, hm]
    obtain ⟨i, hdc, hfirst⟩ := exists_first hdc
    obtain ⟨hif, -⟩ := Option.filter_eq_some_iff.mp hdc
    simp only [Bool.false_and, Bool.false_eq_true, if_false, Bool.not_false, Bool.true_and] at hif
    split at hif
    case isFalse => cases hif
    case isTrue hset =>
    cases hif
    have hset' : (v : ℤ).land (longBit i) ≠ 0 := bne_iff_ne.mp hset
    have hne : (v : ℤ) ≠ 0 := by
      rintro hzero
      refine hset' (int_eq_zero_iff.mpr fun b => ?_)
      rw [hzero, Int.testBit_land, show (0 : ℤ).testBit b = false from Nat.zero_testBit b,
        Bool.false_and]
    have hones : Bits.bitCount v = j + 1 := ha.2.resolve_left hne
    rcases Nat.lt_or_ge (i % 64) 63 with hbit | hbit
    · rw [longBit_of_lt hbit] at hset' ⊢
      have hbitset : v.testBit (i % 64) = true := by
        by_contra hclear
        refine hset' (congrArg Int.ofNat ?_)
        rw [← beq_iff_eq, and_two_pow_beq, Bool.eq_false_of_not_eq_true hclear, Bool.not_false]
      obtain ⟨hclear, hadd⟩ := ldiff_two_pow hbitset
      have hmerge := Term.merge_eq (m := m) hclear
      have hless := bitCount_add_two_pow hclear
      rw [hadd] at hmerge hless
      change Counted j ((⟨v, m⟩ : Term).merge ⟨(v.ldiff (2 ^ (i % 64)) : ℕ), m⟩)
      rw [hmerge]
      exact ⟨Int.natCast_nonneg _, .inr (Nat.succ_injective (hless.symm.trans hones))⟩
    · -- The search has come to the sign, so no bit below it is set.
      have hsign : i % 64 = 63 := by have := Nat.mod_lt i (by decide : 0 < 64); omega
      have hbelow (b : ℕ) (hb : b < 63) : v.testBit b = false := by
        have hnone := hfirst b (hb.trans_le (hbit.trans (Nat.mod_le i 64)))
        have hmod : b % 64 = b := Nat.mod_eq_of_lt (hb.trans (by decide))
        rw [longBit_of_lt (hmod.symm ▸ hb), hmod] at hnone
        have hzero : (v : ℤ).land (2 ^ b : ℕ) = 0 := by simpa using hnone
        have hclear := and_two_pow_beq v b
        rw [beq_iff_eq.mpr (Int.natCast_eq_zero.mp hzero)] at hclear
        simpa using hclear.symm
      have hlow : (v : ℤ).land (longBit i).lnot = 0 := by
        rw [longBit_sign hsign]
        refine congrArg Int.ofNat (Nat.zero_of_testBit_eq_false fun b => ?_)
        rw [Nat.testBit_land, Nat.testBit_two_pow_sub_one]
        by_cases hb : b < 63
        · rw [hbelow b hb, Bool.false_and]
        · rw [decide_eq_false hb, Bool.and_false]
      have hself : (v : ℤ).ldiff v = 0 :=
        int_eq_zero_iff.mpr fun b => by rw [Int.testBit_ldiff, Bool.and_not_self]
      rw [hlow, Term.merge]
      simp only [sub_zero, hself]
      exact ⟨le_rfl, .inl rfl⟩

theorem sound_nil (h : ∀ t ∈ minterms, t.Ok w) : Sound w minterms [] := by
  intro ord
  have hstart : Starts Counted minterms := fun t ht => ⟨(h t ht).value_nonneg, .inr rfl⟩
  have hprimes := collectPrimes_spec ord h hstart
    (workOk ord hstart merges_counted grows_counted)
  change Primes _ _ (getPrimeImplicants ord minterms [] w) at hprimes
  obtain ⟨c, hc, -, hcov⟩ := Simplify.exists_choice ord w hprimes.covers
  refine ⟨_, apply_eq ord rfl hc ⟨Simplify.covered_any.mp hcov, by simp⟩, fun t ht x hx => ?_,
    by simp⟩
  obtain ⟨p, hp, hpt⟩ := hcov t ht
  exact ⟨p, hp, Term.points_subset hpt hx⟩

/-! ### One table -/

/-- The words without bit 63. -/
def half : Term := ⟨0, 2 ^ 63 - 1⟩

/-- The words with it. -/
def otherHalf : Term := ⟨2 ^ 63, 2 ^ 63 - 1⟩

/-- All words there are. -/
def full : Term := ⟨0, -1⟩

/-- A row with terms in its first column only. -/
def firstColumn (bits : ℕ) (x : List Term) : List (List Term) := x :: List.replicate bits []

section Row

variable {bits : ℕ} {x : List Term}

@[simp] theorem list_nil (ord : SetOrder) : ord.list [] = [] := (ord.perm []).eq_nil

theorem list_singleton (ord : SetOrder) (t : Term) : ord.list [t] = [t] :=
  List.perm_singleton.mp (ord.perm [t])

theorem getD_firstColumn_succ (j : ℕ) : (firstColumn bits x).getD (j + 1) [] = [] := by
  rw [firstColumn, List.getD_cons_succ, List.getD_eq_getElem?_getD, List.getElem?_replicate]
  split <;> rfl

theorem left_firstColumn (merged : List (ℕ × Term)) :
    ((firstColumn bits x).zipIdx.flatMap fun s =>
      (ord.list s.1).filter fun t => (s.2, t) ∉ merged) =
      (ord.list x).filter fun t => (0, t) ∉ merged := by
  rw [firstColumn, List.zipIdx_cons, List.flatMap_cons, List.flatMap_eq_nil_iff.mpr,
    List.append_nil]
  intro s hs
  rw [List.eq_of_mem_replicate (List.fst_mem_of_mem_zipIdx hs), list_nil, List.filter_nil]

variable (i : ℕ)

theorem tableRow_half : tableRow [half] bits i =
    firstColumn bits (if i = 63 then [half] else []) := by
  have hmask : BigInt.bitCount half.mask = 63 := by
    norm_num [BigInt.bitCount, Bits.bitCount, half]
  have hvalue : BigInt.bitCount half.value = 0 := by
    simp [BigInt.bitCount, Bits.bitCount, half]
  have hcolumn (j : ℕ) : ([half].filter fun t =>
      decide (i = BigInt.bitCount t.mask ∧ j = BigInt.bitCount t.value)).dedup =
        if i = 63 ∧ j = 0 then [half] else [] := by
    rw [List.filter_singleton, hmask, hvalue]
    by_cases h : i = 63 ∧ j = 0 <;> simp [h]
  rw [tableRow, List.range_succ_eq_map, List.map_cons, hcolumn, List.map_map, firstColumn]
  congr 1
  · simp
  · rw [List.eq_replicate_iff]
    refine ⟨by simp, fun l hl => ?_⟩
    obtain ⟨j, -, rfl⟩ := List.mem_map.mp hl
    rw [Function.comp_apply, hcolumn, if_neg fun h => Nat.succ_ne_zero j h.2]

theorem mergeRow_firstColumn : Simplify.mergeRow ord [half] bits i (firstColumn bits x) =
    ⟨tableRow [half] bits (i + 1), []⟩ := by
  have hcolumn (w : RowWork) (j : ℕ) : mergeColumn ord (firstColumn bits x) w j = w := by
    have hpairs (lo : List Term) : mergePairs ord lo [] = [] := by simp [mergePairs]
    rw [mergeColumn, getD_firstColumn_succ, hpairs, List.foldl_nil]
  rw [Simplify.mergeRow]
  exact List.foldlRecOn (motive := (· = _)) _ _ rfl fun w hw j _ => (hcolumn w j).trans hw

/-- The loop over the columns comes to one with terms at most once. -/
theorem growRow_firstColumn {i : ℕ} (hi : i < bits) (maxterms : List Term) :
    growRow ord [half] maxterms bits i (firstColumn bits x) =
      (ord.list x).foldl (growAbove maxterms bits 0) ⟨tableRow [half] bits (i + 1), []⟩ := by
  have hrest (w : RowWork) (j : ℕ) :
      growColumn ord maxterms bits (firstColumn bits x) w (j + 1) = w := by
    rw [growColumn]
    simp only [primeIn, getD_firstColumn_succ, List.filter_nil, list_nil, List.foldl_nil]
  have hfirst (w : RowWork) (hw : w.merged = []) :
      growColumn ord maxterms bits (firstColumn bits x) w 0 =
        (ord.list x).foldl (growAbove maxterms bits 0) w := by
    rw [growColumn]
    simp [primeIn, hw, firstColumn]
  obtain ⟨n, hn⟩ : ∃ n, bits - i = n + 1 := ⟨bits - i - 1, by omega⟩
  rw [growRow, mergeRow_firstColumn, hn, List.range_succ_eq_map, List.foldl_cons, List.foldl_map,
    hfirst _ rfl]
  exact List.foldlRecOn (motive := (· = _)) _ _ rfl fun w hw j _ => (hrest w j).trans hw

theorem growRow_of_le {i : ℕ} (hi : bits ≤ i) (maxterms : List Term) :
    growRow ord [half] maxterms bits i (firstColumn bits x) =
      ⟨tableRow [half] bits (i + 1), []⟩ := by
  rw [growRow, mergeRow_firstColumn, Nat.sub_eq_zero_of_le hi, List.range_zero, List.foldl_nil]

theorem growRow_nil : growRow ord [half] maxterms bits i (firstColumn bits []) =
    ⟨tableRow [half] bits (i + 1), []⟩ := by
  rcases lt_or_ge i bits with hi | hi
  · rw [growRow_firstColumn hi, list_nil, List.foldl_nil]
  · exact growRow_of_le hi maxterms

/-- With bit 63 the search finds a number that meets no maxterm, and with it all words. -/
theorem getImplicitDC_half (hbits : 64 ≤ bits) :
    ∃ u, getImplicitDC [otherHalf] half bits true = some u ∧ u.merge half = full := by
  obtain ⟨u, hfound, hmerge⟩ : ∃ u, getImplicitDC [otherHalf] half 64 true = some u ∧
      u.merge half = full :=
    Option.map_eq_some_iff.mp (by decide +kernel)
  refine ⟨u, ?_, hmerge⟩
  rw [getImplicitDC] at hfound ⊢
  obtain ⟨k, rfl⟩ := Nat.exists_eq_add_of_le hbits
  rw [List.range_add, List.findSome?_append, hfound]
  rfl

theorem getImplicitDC_full : getImplicitDC maxterms full bits true = none := by
  have hland (y : ℤ) : (full.value.lor full.mask).land y = y := by
    refine int_eq_of_testBit fun b => ?_
    rw [Int.testBit_land, Int.testBit_lor, show full.mask.testBit b = true by
      change (!Nat.testBit 0 b) = true; rw [Nat.zero_testBit, Bool.not_false],
      Bool.or_true, Bool.true_and]
  have hbit (i : ℕ) : longBit i ≠ 0 := by
    have hall : ∀ k < 64, (1#64 <<< k).toInt ≠ 0 := by decide
    exact hall (i % 64) (Nat.mod_lt i (by decide))
  rw [getImplicitDC, List.findSome?_eq_none_iff]
  intro i _
  simp [hland, hbit i]

theorem growRow_half (hbits : 64 ≤ bits) :
    growRow ord [half] [otherHalf] bits 63 (firstColumn bits [half]) =
      ⟨firstColumn bits [full], [(0, half)]⟩ := by
  obtain ⟨u, hfound, hmerge⟩ := getImplicitDC_half hbits
  rw [growRow_firstColumn hbits, list_singleton, List.foldl_cons, List.foldl_nil,
    growAbove, hfound]
  simp only [hmerge]
  rw [RowWork.add, tableRow_half]
  rfl

theorem growRow_full :
    growRow ord [half] maxterms bits 64 (firstColumn bits [full]) =
      ⟨firstColumn bits [], []⟩ := by
  have hempty : tableRow [half] bits (64 + 1) = firstColumn bits [] := tableRow_half 65
  rcases lt_or_ge 64 bits with hi | hi
  · rw [growRow_firstColumn hi, list_singleton, List.foldl_cons, List.foldl_nil,
      growAbove, getImplicitDC_full, hempty]
  · rw [growRow_of_le hi, hempty]

end Row

section Wide

variable (ord) {bits : ℕ}

theorem collectPrimes_before (n k : ℕ) (hk : k ≤ 63) (prime : List Term) :
    collectPrimes ord (growRow ord [half] [otherHalf] bits) (n + k) (63 - k)
        (tableRow [half] bits (63 - k)) prime =
      collectPrimes ord (growRow ord [half] [otherHalf] bits) n 63
        (tableRow [half] bits 63) prime := by
  induction k with
  | zero => rfl
  | succ k ih =>
    have hempty : tableRow [half] bits (63 - (k + 1)) = firstColumn bits [] := by
      rw [tableRow_half, if_neg (by omega)]
    rw [← Nat.add_assoc, collectPrimes, hempty, growRow_nil]
    simp only [left_firstColumn, list_nil, List.filter_nil, List.reverse_nil,
      List.nil_append, show 63 - (k + 1) + 1 = 63 - k by omega]
    exact ih (Nat.le_of_succ_le hk)

theorem collectPrimes_after (n i : ℕ) (hi : 64 ≤ i) (prime : List Term) :
    collectPrimes ord (growRow ord [half] [otherHalf] bits) n i (firstColumn bits []) prime =
      prime := by
  induction n generalizing i with
  | zero => rfl
  | succ n ih =>
    rw [collectPrimes, growRow_nil, tableRow_half, if_neg (by omega)]
    simp only [left_firstColumn, list_nil, List.filter_nil, List.reverse_nil, List.nil_append]
    exact ih (i + 1) (by omega)

theorem getPrimeImplicants_half (hbits : 64 ≤ bits) :
    getPrimeImplicants ord [half] [otherHalf] bits = [full] := by
  obtain ⟨n, rfl⟩ := Nat.exists_eq_add_of_le hbits
  rw [getPrimeImplicants, show 64 + n + 1 = n + 2 + 63 by omega,
    collectPrimes_before ord (n + 2) 63 le_rfl []]
  rw [tableRow_half, if_pos rfl, collectPrimes, growRow_half hbits, collectPrimes, growRow_full]
  simp only [left_firstColumn, list_singleton]
  rw [collectPrimes_after ord n 65 (by decide)]
  simp [Term.sort]

theorem apply_half (hbits : 64 ≤ bits) : apply ord [half] [otherHalf] bits = none := by
  obtain ⟨hchoice, hwrong⟩ :
      Simplify.getEssentialPrimeImplicants [full] [half] = ([full], [], []) ∧
        ¬Verified [full] [half] [otherHalf] := by
    decide +kernel
  rw [apply, getPrimeImplicants_half ord hbits]
  simp [hchoice, Simplify.getCover, hwrong, guard]

end Wide

theorem table_half {bits : ℕ} (hbits : 64 ≤ bits) : Table bits [half] [otherHalf] := by
  have hle : 2 ^ 64 ≤ 2 ^ bits := Nat.pow_le_pow_right two_pos hbits
  have hlt {n : ℕ} (hn : n < 2 ^ 64) : n < 2 ^ bits := hn.trans_le hle
  have hhalf : half.Ok bits := Term.ok_nat (v := 0) (m := 2 ^ 63 - 1) |>.mpr
    ⟨Nat.two_pow_pos bits, hlt (by decide), by decide⟩
  have hother : otherHalf.Ok bits := Term.ok_nat (v := 2 ^ 63) (m := 2 ^ 63 - 1) |>.mpr
    ⟨hlt (by decide), hlt (by decide), by decide⟩
  have hdisj : Disjoint half.points otherHalf.points := by
    refine Set.disjoint_left.mpr fun x hx hx' => ?_
    have hclear : x.testBit 63 = false := hx 63 (by decide)
    have hset : x.testBit 63 = true := hx' 63 (by decide)
    exact Bool.false_ne_true (hclear.symm.trans hset)
  exact ⟨by simpa using hhalf, by simpa using hother, by simpa using hdisj⟩

/-- The minimiser is right about every table without maxterms, and about every table of which no
minterm is searched at a bit from 63 on: up to 63 variables that is any table. For every larger
number of variables it is wrong about some other table, whatever the order of sets is. -/
theorem sound (bits : ℕ) :
    (∀ minterms maxterms, Table bits minterms maxterms →
      maxterms = [] ∨ (∀ t ∈ minterms, t.Low bits) → Sound bits minterms maxterms) ∧
    (64 ≤ bits → ∃ minterms maxterms, Table bits minterms maxterms ∧
      ∀ ord, apply ord minterms maxterms bits = none) := by
  refine ⟨fun minterms maxterms htable h => ?_, fun hbits => ?_⟩
  · rcases h with rfl | hlow
    · exact sound_nil htable.min_ok
    · exact sound_of_low htable hlow
  · exact ⟨[half], [otherHalf], table_half hbits, fun ord => apply_half ord hbits⟩

/-- In 64 variables, of which all terms leave the last one open. -/
theorem sound_low : Sound 64 [⟨0, 2 ^ 63⟩] [⟨1, 2 ^ 63⟩] := by
  have hzero : (⟨0, 2 ^ 63⟩ : Term).Ok 64 := by constructor <;> decide
  have hone : (⟨1, 2 ^ 63⟩ : Term).Ok 64 := by constructor <;> decide
  have hdisj : Disjoint (⟨0, 2 ^ 63⟩ : Term).points (⟨1, 2 ^ 63⟩ : Term).points := by
    refine Set.disjoint_left.mpr fun x hx hx' => ?_
    have hclear : x.testBit 0 = false := hx 0 (by decide)
    have hset : x.testBit 0 = true := hx' 0 (by decide)
    exact Bool.false_ne_true (hclear.symm.trans hset)
  refine (sound 64).1 _ _ ⟨by simpa using hzero, by simpa using hone, by simpa using hdisj⟩ ?_
  exact .inr (by simp [Term.Low])

/-- In 64 variables the assertion fails, whatever the order of sets is. -/
theorem apply_half_64 :
    Table 64 [half] [otherHalf] ∧ ∀ ord, apply ord [half] [otherHalf] 64 = none :=
  ⟨table_half le_rfl, fun ord => apply_half ord le_rfl⟩

end SimplifyDC

end RiscvSoc
