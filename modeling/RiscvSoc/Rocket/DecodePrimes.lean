import RiscvSoc.Rocket.Decode
import Mathlib.Data.Set.Lattice

/-!
# The prime implicants

The first half of the minimiser. A prime implicant grows from the terms that were given by freeing
bits, and a term is given up only for one that covers it, so every term that was given is covered at
the end. What else holds of the terms of a column is a parameter (`RowGood`): it has to hold of the
terms that were given, and to be kept by the two ways to free a bit, `Merges` and `Grows`.

For terms of natural numbers, that is `Term.Good`: as sets of addresses they never leave the set that
is allowed, the terms and the don't-cares for one of the two minimisers, everything but the explicit
zeros for the other. The minimiser with explicit zeros keeps to natural numbers as long as no term
lets it flip bit 63 (`Term.Low`).
-/

namespace RiscvSoc

open Bits

/-! ### Terms as cubes -/

namespace Term

variable {t u x a : Term} {w j k : ℕ} {U : Set ℕ}

/-- The words a term stands for. -/
def points (t : Term) : Set ℕ :=
  {x | ∀ i, t.mask.testBit i = false → x.testBit i = t.value.testBit i}

theorem points_nat (v m : ℕ) : (⟨v, m⟩ : Term).points = cube v m := rfl

theorem covers_iff : t.covers x = true ↔ ∀ i, t.mask.testBit i = false →
    x.mask.testBit i = false ∧ x.value.testBit i = t.value.testBit i := by
  rw [covers, beq_iff_eq, int_eq_zero_iff]
  refine forall_congr' fun i => ?_
  rw [Int.testBit_lor, Int.testBit_ldiff, Int.testBit_ldiff, Int.testBit_lxor]
  cases t.mask.testBit i <;> cases x.mask.testBit i <;> cases t.value.testBit i <;>
    cases x.value.testBit i <;> decide

theorem covers_refl (t : Term) : t.covers t = true := covers_iff.mpr fun _ hi => ⟨hi, rfl⟩

theorem covers_trans (htu : t.covers u = true) (hux : u.covers x = true) : t.covers x = true := by
  rw [covers_iff] at *
  intro i hi
  obtain ⟨hm, hv⟩ := htu i hi
  exact ⟨(hux i hm).1, (hux i hm).2.trans hv⟩

theorem points_subset (h : t.covers x = true) : x.points ⊆ t.points := fun _ hy i hi =>
  (hy i (covers_iff.mp h i hi).1).trans (covers_iff.mp h i hi).2

/-- `merge` frees bits of its first argument. -/
theorem covers_merge (t x : Term) : (t.merge x).covers t = true := by
  refine covers_iff.mpr fun i hi => ?_
  simp only [merge, Int.testBit_lor, Bool.or_eq_false_iff] at hi
  rw [merge, Int.testBit_ldiff, hi.2, Bool.not_false, Bool.and_true]
  exact ⟨hi.1, rfl⟩

/-- What every term of the program is: a pattern of `w` digits. -/
structure Ok (w : ℕ) (t : Term) : Prop where
  value_nonneg : 0 ≤ t.value
  mask_nonneg : 0 ≤ t.mask
  value_lt : t.value < 2 ^ w
  mask_lt : t.mask < 2 ^ w
  disjoint : t.value.land t.mask = 0

theorem ok_nat {v m : ℕ} : (⟨v, m⟩ : Term).Ok w ↔ v < 2 ^ w ∧ m < 2 ^ w ∧ v &&& m = 0 := by
  have hlt (n : ℕ) : (n : ℤ) < 2 ^ w ↔ n < 2 ^ w := by norm_cast
  have hand : (v : ℤ).land m = 0 ↔ v &&& m = 0 := Int.natCast_eq_zero
  refine ⟨fun h => ⟨(hlt v).mp h.value_lt, (hlt m).mp h.mask_lt, hand.mp h.disjoint⟩, fun h => ?_⟩
  exact ⟨Int.natCast_nonneg v, Int.natCast_nonneg m, (hlt v).mpr h.1, (hlt m).mpr h.2.1,
    hand.mpr h.2.2⟩

theorem Ok.exists_nat (h : t.Ok w) :
    ∃ v m : ℕ, t = ⟨v, m⟩ ∧ v < 2 ^ w ∧ m < 2 ^ w ∧ v &&& m = 0 := by
  obtain ⟨v, hv⟩ := Int.eq_ofNat_of_zero_le h.value_nonneg
  obtain ⟨m, hm⟩ := Int.eq_ofNat_of_zero_le h.mask_nonneg
  obtain rfl : t = ⟨v, m⟩ := by rw [← hv, ← hm]
  exact ⟨v, m, rfl, ok_nat.mp h⟩

theorem Ok.bitCount_le (h : t.Ok w) :
    BigInt.bitCount t.value ≤ w ∧ BigInt.bitCount t.mask ≤ w := by
  obtain ⟨v, m, rfl, hv, hm, -⟩ := h.exists_nat
  exact ⟨Bits.bitCount_le hv, Bits.bitCount_le hm⟩

theorem intersects_iff (ht : t.Ok w) (hx : x.Ok w) :
    t.intersects x = true ↔ (t.points ∩ x.points).Nonempty := by
  have hbits : t.intersects x = true ↔ ∀ i, t.mask.testBit i = false →
      x.mask.testBit i = false → t.value.testBit i = x.value.testBit i := by
    rw [intersects, beq_iff_eq, int_eq_zero_iff]
    refine forall_congr' fun i => ?_
    rw [Int.testBit_ldiff, Int.testBit_ldiff, Int.testBit_lxor]
    cases t.mask.testBit i <;> cases x.mask.testBit i <;> simp
  obtain ⟨v, m, rfl, -, -, hvm⟩ := ht.exists_nat
  obtain ⟨v', m', rfl, -, -, hvm'⟩ := hx.exists_nat
  rw [hbits, points_nat, points_nat]
  exact (cube_inter_nonempty_iff hvm hvm').symm

/-- A term as the table has it in column `j`: `j` ones, and only words that are allowed. -/
structure Good (w : ℕ) (U : Set ℕ) (j : ℕ) (t : Term) : Prop where
  ok : t.Ok w
  ones : BigInt.bitCount t.value = j
  allowed : t.points ⊆ U

/-! ### Freeing a bit -/

/-- What `merge` makes of two terms that differ in bit `k`. -/
theorem merge_eq {v : ℕ} {m : ℤ} (hk : v.testBit k = false) :
    (⟨(v + 2 ^ k : ℕ), m⟩ : Term).merge ⟨v, m⟩ = ⟨v, m.lor (2 ^ k : ℕ)⟩ := by
  have hbit : ((v + 2 ^ k : ℕ) : ℤ) - v = (2 ^ k : ℕ) := by
    rw [Nat.cast_add, add_sub_cancel_left]
  have hvalue : (v + 2 ^ k).ldiff (2 ^ k) = v := by
    rw [add_two_pow_of_testBit hk]
    refine Nat.eq_of_testBit_eq fun i => ?_
    rw [Nat.testBit_ldiff, Nat.testBit_or, Nat.testBit_two_pow]
    by_cases hi : k = i
    · rw [← hi, hk]
      simp
    · simp [hi]
  simp only [merge, hbit, mk.injEq, and_true]
  exact congrArg Int.ofNat hvalue

theorem covers_lor (v m b : ℤ) : (⟨v, m.lor b⟩ : Term).covers ⟨v, m⟩ = true := by
  refine covers_iff.mpr fun i hi => ?_
  rw [Int.testBit_lor, Bool.or_eq_false_iff] at hi
  exact ⟨hi.1, rfl⟩

/-- Two terms that differ in bit `k`, which the second one does not have. -/
structure Neighbours (k : ℕ) (x a : Term) : Prop where
  mask : x.mask = a.mask
  value : x.value = a.value + 2 ^ k
  clear : a.value.testBit k = false

theorem neighbours_nat {v : ℕ} {m : ℤ} (hk : v.testBit k = false) :
    Neighbours k ⟨(v + 2 ^ k : ℕ), m⟩ ⟨v, m⟩ :=
  ⟨rfl, by rw [Nat.cast_add, Nat.cast_pow, Nat.cast_ofNat], hk⟩

theorem Neighbours.exists_nat (h : Neighbours k x a) (ha : a.Ok w) :
    ∃ v m : ℕ, a = ⟨v, m⟩ ∧ x = ⟨(v + 2 ^ k : ℕ), m⟩ ∧ v.testBit k = false ∧
      v < 2 ^ w ∧ m < 2 ^ w ∧ v &&& m = 0 := by
  obtain ⟨v, m, rfl, hok⟩ := ha.exists_nat
  have hm : x.mask = m := h.mask
  refine ⟨v, m, rfl, ?_, h.clear, hok⟩
  rw [Nat.cast_add, Nat.cast_pow, Nat.cast_ofNat, ← h.value, ← hm]

/-- The term with a bit freed, if both values of the bit are allowed. -/
theorem Good.merge (ha : a.Good w U j) (hx : x.Ok w) (hxU : x.points ⊆ U)
    (h : Neighbours k x a) : (x.merge a).Good w U j ∧ (x.merge a).covers a = true := by
  obtain ⟨v, m, rfl, rfl, hk, hv, hm, hvm⟩ := h.exists_nat ha.ok
  have hlt : 2 ^ k < 2 ^ w := (Nat.le_add_left ..).trans_lt (ok_nat.mp hx).1
  have hxor : v + 2 ^ k = v ||| 2 ^ k := add_two_pow_of_testBit hk
  have hpow : v &&& 2 ^ k = 0 := by
    rw [Nat.and_two_pow, hk]
    simp
  rw [merge_eq hk]
  refine ⟨⟨ok_nat.mpr ⟨hv, Nat.or_lt_two_pow hm hlt, ?_⟩, ha.ones, ?_⟩, covers_lor v m _⟩
  · rw [Nat.and_or_distrib_left, hvm, hpow, Nat.or_self]
  · have hpoints : cube v (m ||| 2 ^ k) = cube v m ∪ cube (v + 2 ^ k) m := by
      rw [cube_or_two_pow hk, ← hxor]
    change cube v (m ||| 2 ^ k) ⊆ U
    rw [hpoints]
    exact Set.union_subset ha.allowed hxU

theorem exists_add_of_similar (ha : 0 ≤ a.value) (hx : 0 ≤ x.value) (hs : x.similar a = true) :
    ∃ v v' k : ℕ, a = ⟨v, a.mask⟩ ∧ x = ⟨v', a.mask⟩ ∧ v' = v + 2 ^ k := by
  obtain ⟨v, hv⟩ := Int.eq_ofNat_of_zero_le ha
  obtain ⟨v', hv'⟩ := Int.eq_ofNat_of_zero_le hx
  simp only [similar, hv, hv', Bool.and_eq_true, beq_iff_eq, decide_eq_true_eq] at hs
  obtain ⟨⟨hm, hlt⟩, hpow⟩ := hs
  have hlt' : v < v' := Int.ofNat_lt.mp hlt
  have hnat : (v' - v) &&& (v' - v - 1) = 0 := by
    rw [← Nat.cast_sub hlt'.le, ← Nat.cast_one, ← Nat.cast_sub (by omega)] at hpow
    exact Int.natCast_eq_zero.mp hpow
  obtain ⟨k, hk⟩ := (Nat.and_sub_one_eq_zero_iff_isPowerOfTwo (by omega)).mp hnat
  exact ⟨v, v', k, by rw [← hv], by rw [← hv', ← hm], by omega⟩

/-- In neighbouring columns it is a bit that the smaller one does not have. -/
theorem exists_neighbours_of_similar (ha : a.Ok w) (hx : x.Ok w) (hs : x.similar a = true)
    (hones : BigInt.bitCount x.value = BigInt.bitCount a.value + 1) : ∃ k, Neighbours k x a := by
  obtain ⟨v, _, k, hva, hvx, rfl⟩ := exists_add_of_similar ha.value_nonneg hx.value_nonneg hs
  rw [hva, hvx] at hones ⊢
  exact ⟨k, neighbours_nat (testBit_eq_false_of_bitCount hones)⟩

theorem mem_sort {l : List Term} : t ∈ sort l ↔ t ∈ l := (List.perm_insertionSort _ l).mem_iff

end Term

/-! ### The work on a row -/

variable {ord : SetOrder} {good : ℕ → Term → Prop} {implicants : List Term} {w : ℕ}

/-- A row whose columns hold what they should. -/
def RowGood (good : ℕ → Term → Prop) (r : List (List Term)) : Prop :=
  ∀ j, ∀ t ∈ r.getD j [], good j t

/-- What is right after part of the work on row `i`: the next row is good, it has the given terms
that belong there, and a term that is no longer prime is covered from there. -/
structure RowWork.Ok (good : ℕ → Term → Prop) (implicants : List Term) (w i : ℕ) (k : RowWork) :
    Prop where
  good : RowGood good k.next
  length : k.next.length = w + 1
  given : ∀ j, ∀ t ∈ (tableRow implicants w i).getD j [], t ∈ k.next.getD j []
  merged : ∀ p ∈ k.merged, ∃ j, ∃ u ∈ k.next.getD j [], u.covers p.2 = true

/-- The terms that are given have what is kept. -/
def Starts (good : ℕ → Term → Prop) (implicants : List Term) : Prop :=
  ∀ t ∈ implicants, good (BigInt.bitCount t.value) t

/-- Two similar terms of neighbouring columns make up one for the lower column. -/
def Merges (good : ℕ → Term → Prop) : Prop :=
  ∀ {j : ℕ} {a x : Term}, good j a → good (j + 1) x → x.similar a = true →
    good j (x.merge a) ∧ (x.merge a).covers a = true

variable {i j : ℕ} {t : Term} {k : RowWork} {ps : List (ℕ × Term)} {r : List (List Term)}

theorem mem_tableRow : t ∈ (tableRow implicants w i).getD j [] ↔
    j ≤ w ∧ t ∈ implicants ∧ i = BigInt.bitCount t.mask ∧ j = BigInt.bitCount t.value := by
  rw [tableRow, List.getD_eq_getElem?_getD, List.getElem?_map]
  by_cases hj : j < w + 1
  · rw [List.getElem?_range hj]
    simp [Nat.lt_succ_iff.mp hj]
  · rw [List.getElem?_eq_none (by simpa using Nat.not_lt.mp hj)]
    simp [show ¬j ≤ w by omega]

theorem rowGood_tableRow (h : Starts good implicants) (i : ℕ) :
    RowGood good (tableRow implicants w i) := by
  intro j t ht
  obtain ⟨-, hmem, -, rfl⟩ := mem_tableRow.mp ht
  exact h t hmem

theorem RowWork.Ok.start (h : Starts good implicants) (i : ℕ) :
    RowWork.Ok good implicants w i ⟨tableRow implicants w i, []⟩ :=
  ⟨rowGood_tableRow h i, by simp [tableRow], fun _ _ ht => ht, fun _ ht => absurd ht (by simp)⟩

theorem RowWork.mem_add {j j' : ℕ} {t u : Term} (hj : j < k.next.length) :
    u ∈ (k.add j t ps).next.getD j' [] ↔ u ∈ k.next.getD j' [] ∨ (j' = j ∧ u = t) := by
  simp only [RowWork.add, List.getD_eq_getElem?_getD, List.getElem?_modify]
  by_cases hjj : j = j'
  · subst hjj
    rw [List.getElem?_eq_getElem hj]
    simp [or_comm]
  · simp [hjj, Ne.symm hjj]

/-- **The step lemma of a row.** A good term comes in that covers those it was merged from. -/
theorem RowWork.Ok.add (h : k.Ok good implicants w i) (hj : j ≤ w) (ht : good j t)
    (hps : ∀ p ∈ ps, t.covers p.2 = true) : (k.add j t ps).Ok good implicants w i := by
  have hlt : j < k.next.length := h.length ▸ Nat.lt_succ_of_le hj
  refine ⟨fun j' u hu => ?_, ?_, fun j' u hu => ?_, fun p hp => ?_⟩
  · rcases (mem_add hlt).mp hu with hu | ⟨rfl, rfl⟩
    · exact h.good j' u hu
    · exact ht
  · rw [RowWork.add, List.length_modify, h.length]
  · exact (mem_add hlt).mpr (.inl (h.given j' u hu))
  · rcases List.mem_append.mp hp with hp | hp
    · exact ⟨j, t, (mem_add hlt).mpr (.inr ⟨rfl, rfl⟩), hps p hp⟩
    · obtain ⟨j', v, hv, hcov⟩ := h.merged p hp
      exact ⟨j', v, (mem_add hlt).mpr (.inl hv), hcov⟩

theorem mem_mergePairs {lo hi : List Term} {p : Term × Term} :
    p ∈ mergePairs ord lo hi ↔ p.2 ∈ lo ∧ p.1 ∈ hi ∧ p.1.similar p.2 = true := by
  obtain ⟨x, a⟩ := p
  simp only [mergePairs, List.mem_flatMap, List.mem_map, SetOrder.mem_list, List.mem_filter,
    Prod.mk.injEq]
  constructor
  · rintro ⟨b, hb, y, ⟨hy, hs⟩, rfl, rfl⟩
    exact ⟨hb, hy, hs⟩
  · rintro ⟨ha, hx, hs⟩
    exact ⟨a, ha, x, ⟨hx, hs⟩, rfl, rfl⟩

theorem RowWork.Ok.mergeColumn (h : k.Ok good implicants w i) (hmerge : Merges good)
    (hr : RowGood good r) (hj : j ≤ w) : (mergeColumn ord r k j).Ok good implicants w i := by
  refine List.foldlRecOn _ _ h fun k hk p hp => ?_
  obtain ⟨ha, hx, hs⟩ := mem_mergePairs.mp hp
  obtain ⟨hgood, hcov⟩ := hmerge (hr j p.2 ha) (hr (j + 1) p.1 hx) hs
  refine hk.add hj hgood fun q hq => ?_
  rcases List.mem_pair.mp hq with rfl | rfl
  · exact p.1.covers_merge p.2
  · exact hcov

/-! ### The rows together -/

/-- What the loop over the rows needs of its body. -/
structure WorkOk (good : ℕ → Term → Prop) (implicants : List Term) (w : ℕ)
    (work : ℕ → List (List Term) → RowWork) : Prop where
  ok : ∀ i r, RowGood good r → (work i r).Ok good implicants w (i + 1)
  last : ∀ r, (work w r).merged = []

/-- What comes out of it: good terms, with one over every term that was given. -/
structure Primes (good : ℕ → Term → Prop) (implicants prime : List Term) : Prop where
  ok : ∀ p ∈ prime, ∃ j, good j p
  covers : ∀ t ∈ implicants, ∃ p ∈ prime, p.covers t = true

theorem mem_left {merged : List (ℕ × Term)} :
    t ∈ (r.zipIdx.flatMap fun s => (ord.list s.1).filter fun t => (s.2, t) ∉ merged) ↔
      ∃ j, t ∈ r.getD j [] ∧ (j, t) ∉ merged := by
  simp only [List.mem_flatMap, List.mem_filter, SetOrder.mem_list, decide_eq_true_eq, Prod.exists,
    List.mem_zipIdx_iff_getElem?]
  constructor
  · rintro ⟨s, j, hs, ht, hno⟩
    exact ⟨j, by rwa [List.getD_eq_getElem?_getD, hs], hno⟩
  · rintro ⟨j, ht, hno⟩
    rw [List.getD_eq_getElem?_getD] at ht
    cases hr : r[j]? with
    | none => simp [hr] at ht
    | some s => exact ⟨s, j, hr, by rwa [hr] at ht, hno⟩

section collect

variable {work : ℕ → List (List Term) → RowWork}

theorem collectPrimes_ok (hwork : WorkOk good implicants w work) :
    ∀ (n i : ℕ) (r : List (List Term)) (prime : List Term), RowGood good r →
      (∀ p ∈ prime, ∃ j, good j p) →
      ∀ p ∈ collectPrimes ord work n i r prime, ∃ j, good j p := by
  intro n
  induction n with
  | zero => exact fun _ _ _ _ hprime => hprime
  | succ n ih =>
    intro i r prime hr hprime
    refine ih (i + 1) _ _ (hwork.ok i r hr).good fun p hp => ?_
    rcases List.mem_append.mp hp with hp | hp
    · obtain ⟨j, hj, -⟩ := mem_left.mp (List.mem_reverse.mp hp)
      exact ⟨j, hr j p hj⟩
    · exact hprime p hp

theorem subset_collectPrimes : ∀ (n i : ℕ) (r : List (List Term)) (prime : List Term),
    prime ⊆ collectPrimes ord work n i r prime := by
  intro n
  induction n with
  | zero => exact fun _ _ _ _ hp => hp
  | succ n ih => exact fun i r prime p hp => ih _ _ _ (List.mem_append_right _ hp)

/-- **The run lemma of the rows.** A term is collected where it stands, or given up for one of the
next row that covers it. -/
theorem collectPrimes_covers (hwork : WorkOk good implicants w work) :
    ∀ (n i : ℕ) (r : List (List Term)) (prime : List Term), i + n = w → RowGood good r →
      ∀ j, ∀ t ∈ r.getD j [],
        ∃ p ∈ collectPrimes ord work (n + 1) i r prime, p.covers t = true := by
  intro n
  induction n with
  | zero =>
    intro i r prime hi _ j t ht
    obtain rfl : i = w := hi
    refine ⟨t, List.mem_append_left _ (List.mem_reverse.mpr ?_), t.covers_refl⟩
    exact mem_left.mpr ⟨j, ht, by simp [hwork.last r]⟩
  | succ n ih =>
    intro i r prime hi hr j t ht
    have hok := hwork.ok i r hr
    by_cases hmerged : (j, t) ∈ (work i r).merged
    · obtain ⟨j', u, hu, hcov⟩ := hok.merged _ hmerged
      obtain ⟨p, hp, hpu⟩ := ih (i + 1) (work i r).next
        ((r.zipIdx.flatMap fun s =>
          (ord.list s.1).filter fun t => (s.2, t) ∉ (work i r).merged).reverse ++ prime)
        (by omega) hok.good j' u hu
      exact ⟨p, hp, Term.covers_trans hpu hcov⟩
    · refine ⟨t, subset_collectPrimes (n + 1) (i + 1) (work i r).next _
        (List.mem_append_left _ (List.mem_reverse.mpr ?_)), t.covers_refl⟩
      exact mem_left.mpr ⟨j, ht, hmerged⟩

variable (ord) in
/-- A term that was given is in the row of its mask, which the loop reaches. -/
theorem collectPrimes_given (hwork : WorkOk good implicants w work) {t : Term}
    (ht : t ∈ implicants) (hok : t.Ok w) :
    ∀ (n i : ℕ) (r : List (List Term)) (prime : List Term), i + n = w → RowGood good r →
      (∀ j, ∀ t ∈ (tableRow implicants w i).getD j [], t ∈ r.getD j []) →
      i ≤ BigInt.bitCount t.mask →
      ∃ p ∈ collectPrimes ord work (n + 1) i r prime, p.covers t = true := by
  obtain ⟨hvalue, hmask⟩ := hok.bitCount_le
  intro n
  induction n with
  | zero =>
    intro i r prime hi hr hgiven hle
    refine collectPrimes_covers hwork 0 i r prime hi hr (BigInt.bitCount t.value) t (hgiven _ _ ?_)
    exact mem_tableRow.mpr ⟨hvalue, ht, by omega, rfl⟩
  | succ n ih =>
    intro i r prime hi hr hgiven hle
    rcases Nat.eq_or_lt_of_le hle with heq | hlt
    · refine collectPrimes_covers hwork (n + 1) i r prime hi hr (BigInt.bitCount t.value) t
        (hgiven _ _ ?_)
      exact mem_tableRow.mpr ⟨hvalue, ht, heq, rfl⟩
    · have hnext := hwork.ok i r hr
      exact ih (i + 1) (work i r).next _ (by omega) hnext.good hnext.given hlt

variable (ord) in
theorem collectPrimes_spec (hok : ∀ t ∈ implicants, t.Ok w) (h : Starts good implicants)
    (hwork : WorkOk good implicants w work) : Primes good implicants
      (Term.sort (collectPrimes ord work (w + 1) 0 (tableRow implicants w 0) [])) := by
  have hrow := rowGood_tableRow (w := w) h 0
  refine ⟨fun p hp => ?_, fun t ht => ?_⟩
  · exact collectPrimes_ok hwork (w + 1) 0 _ [] hrow (fun p hp => absurd hp (by simp)) p
      (Term.mem_sort.mp hp)
  · obtain ⟨p, hp, hcov⟩ := collectPrimes_given ord hwork ht (hok t ht) w 0 _ []
      (Nat.zero_add w) hrow (fun _ _ ht => ht) (Nat.zero_le _)
    exact ⟨p, Term.mem_sort.mpr hp, hcov⟩

end collect

/-! ### The two bodies of the loop -/

theorem Simplify.ok_mergeRow (h : Starts good implicants) (hmerge : Merges good) {i : ℕ}
    {r : List (List Term)} (hr : RowGood good r) :
    (Simplify.mergeRow ord implicants w i r).Ok good implicants w (i + 1) := by
  refine List.foldlRecOn _ _ (.start h (i + 1)) fun k hk j hj => ?_
  have := List.mem_range.mp hj
  exact hk.mergeColumn hmerge hr (by omega)

variable (ord) in
theorem Simplify.workOk (h : Starts good implicants) (hmerge : Merges good) :
    WorkOk good implicants w (Simplify.mergeRow ord implicants w) where
  ok _ _ hr := ok_mergeRow h hmerge hr
  last r := by simp [Simplify.mergeRow]

namespace SimplifyDC

variable {maxterms : List Term}

/-- Merging with an implicit don't-care keeps what holds of the columns. -/
structure Grows (good : ℕ → Term → Prop) (maxterms : List Term) (w : ℕ) : Prop where
  above : ∀ {j : ℕ} {a dc : Term}, good j a → getImplicitDC maxterms a w true = some dc →
    good j (dc.merge a) ∧ (dc.merge a).covers a = true
  below : ∀ {j : ℕ} {a dc : Term}, good (j + 1) a → getImplicitDC maxterms a w false = some dc →
    good j (a.merge dc)

theorem ok_growAbove (hgrow : Grows good maxterms w) (hk : k.Ok good implicants w i) (hj : j ≤ w)
    (ht : good j t) : (growAbove maxterms w j k t).Ok good implicants w i := by
  rw [growAbove]
  split
  · exact hk
  · rename_i dc hdc
    obtain ⟨hgood, hcov⟩ := hgrow.above ht hdc
    exact hk.add hj hgood fun p hp => List.mem_singleton.mp hp ▸ hcov

theorem ok_growBelow (hgrow : Grows good maxterms w) (hk : k.Ok good implicants w i) (hj : j ≤ w)
    (ht : good (j + 1) t) : (growBelow maxterms w j k t).Ok good implicants w i := by
  rw [growBelow]
  split
  · exact hk
  · rename_i dc hdc
    refine hk.add hj (hgrow.below ht hdc) fun p hp => ?_
    exact List.mem_singleton.mp hp ▸ t.covers_merge dc

theorem mem_primeIn (h : t ∈ primeIn ord r k j) : t ∈ r.getD j [] :=
  List.mem_of_mem_filter (SetOrder.mem_list.mp h)

theorem ok_growColumn (hgrow : Grows good maxterms w) (hk : k.Ok good implicants w i)
    (hr : RowGood good r) (hj : j ≤ w) :
    (growColumn ord maxterms w r k j).Ok good implicants w i := by
  refine List.foldlRecOn _ _ ?_ fun k hk a ha => ok_growBelow hgrow hk hj (hr _ a (mem_primeIn ha))
  exact List.foldlRecOn _ _ hk fun k hk a ha => ok_growAbove hgrow hk hj (hr _ a (mem_primeIn ha))

variable (ord) in
theorem workOk (h : Starts good implicants) (hmerge : Merges good) (hgrow : Grows good maxterms w) :
    WorkOk good implicants w (growRow ord implicants maxterms w) where
  ok i r hr := by
    refine List.foldlRecOn _ _ (Simplify.ok_mergeRow h hmerge hr) fun k hk j hj => ?_
    have := List.mem_range.mp hj
    exact ok_growColumn hgrow hk hr (by omega)
  last r := by simp [growRow, Simplify.mergeRow]

end SimplifyDC

/-! ### Terms of natural numbers -/

theorem Term.merges_good {U : Set ℕ} : Merges (Term.Good w U) := fun ha hx hs => by
  obtain ⟨b, hb⟩ := Term.exists_neighbours_of_similar ha.ok hx.ok hs (hx.ones.trans (ha.ones ▸ rfl))
  exact ha.merge hx.ok hx.allowed hb

theorem Merges.grown (h : Merges good) (implicants : List Term) :
    Merges fun j t => good j t ∧ ∃ m ∈ implicants, t.covers m = true := fun ha hx hs => by
  obtain ⟨hgood, hcov⟩ := h ha.1 hx.1 hs
  obtain ⟨m, hm, ham⟩ := ha.2
  exact ⟨⟨hgood, m, hm, Term.covers_trans hcov ham⟩, hcov⟩

theorem Starts.grown (h : Starts good implicants) :
    Starts (fun j t => good j t ∧ ∃ m ∈ implicants, t.covers m = true) implicants :=
  fun t ht => ⟨h t ht, t, ht, t.covers_refl⟩

/-- `1L << i` flips no bit of the term from 63 on: there are none, or they are zeros and one of them
is free. -/
def Term.Low (w : ℕ) (t : Term) : Prop := w ≤ 63 ∨ (t.value < 2 ^ 63 ∧ 2 ^ 63 ≤ t.mask)

instance (w : ℕ) (t : Term) : Decidable (t.Low w) := inferInstanceAs (Decidable (_ ∨ _))

theorem Term.low_nat {v m : ℕ} :
    Term.Low w ⟨v, m⟩ ↔ w ≤ 63 ∨ v < 2 ^ 63 ∧ 2 ^ 63 ≤ m := by
  change w ≤ 63 ∨ (v : ℤ) < 2 ^ 63 ∧ (2 : ℤ) ^ 63 ≤ m ↔ _
  norm_cast

theorem Term.Low.merge {b : ℕ} {x a : Term} (h : Neighbours b x a) (ha : a.Ok w)
    (hlow : a.Low w ∨ x.Low w) : (x.merge a).Low w := by
  obtain ⟨v, m, rfl, rfl, hb, -⟩ := h.exists_nat ha
  have hle : m ≤ m ||| 2 ^ b := Nat.left_le_or
  have hpos := Nat.two_pow_pos b
  rw [low_nat, low_nat] at hlow
  rw [merge_eq hb]
  refine (low_nat (m := m ||| 2 ^ b)).mpr ?_
  omega

namespace SimplifyDC

variable {maxterms : List Term}

theorem Grows.grown (h : Grows good maxterms w) (implicants : List Term) :
    Grows (fun j t => good j t ∧ ∃ m ∈ implicants, t.covers m = true) maxterms w where
  above ha hdc := by
    obtain ⟨hgood, hcov⟩ := h.above ha.1 hdc
    obtain ⟨m, hm, ham⟩ := ha.2
    exact ⟨⟨hgood, m, hm, Term.covers_trans hcov ham⟩, hcov⟩
  below := fun {j a dc} ha hdc => by
    obtain ⟨m, hm, ham⟩ := ha.2
    exact ⟨h.below ha.1 hdc, m, hm, Term.covers_trans (a.covers_merge dc) ham⟩

theorem longBit_of_lt (h : i % 64 < 63) : longBit i = (2 ^ (i % 64) : ℕ) := by
  have hlt : 2 ^ (i % 64) < 2 ^ 63 := Nat.pow_lt_pow_right Nat.one_lt_two h
  have hshift : (1#64 <<< (i % 64)).toNat = 2 ^ (i % 64) := by
    rw [BitVec.toNat_shiftLeft, BitVec.toNat_one (by decide), Nat.one_shiftLeft,
      Nat.mod_eq_of_lt (hlt.trans (by decide))]
  rw [longBit, BitVec.toInt_eq_toNat_of_lt, hshift]
  rw [hshift]
  omega

theorem longBit_sign (h : i % 64 = 63) : longBit i = .negSucc (2 ^ 63 - 1) := by
  rw [longBit, h]
  rfl

theorem ldiff_sign {n : ℕ} : n.ldiff (2 ^ 63 - 1) = 0 ↔ n < 2 ^ 63 := by
  have hbit (i : ℕ) : (n.ldiff (2 ^ 63 - 1)).testBit i = (n.testBit i && !decide (i < 63)) := by
    rw [Nat.testBit_ldiff, Nat.testBit_two_pow_sub_one]
  constructor
  · intro h
    refine Nat.lt_pow_two_of_testBit n fun i hi => ?_
    have := hbit i
    rw [h, Nat.zero_testBit, decide_eq_false (Nat.not_lt.mpr hi), Bool.not_false,
      Bool.and_true] at this
    exact this.symm
  · intro h
    refine Nat.zero_of_testBit_eq_false fun i => ?_
    rw [hbit]
    by_cases hi : i < 63
    · simp [hi]
    · rw [Nat.testBit_lt_two_pow (h.trans_le (Nat.pow_le_pow_right two_pos (Nat.not_lt.mp hi))),
        Bool.false_and]

theorem natCast_beq_zero (n : ℕ) : ((n : ℤ) == 0) = (n == 0) := by
  rw [Bool.eq_iff_iff, beq_iff_eq, beq_iff_eq, Int.natCast_eq_zero]

theorem and_two_pow_beq (n b : ℕ) : (n &&& 2 ^ b == 0) = !n.testBit b := by
  rw [Nat.and_two_pow]
  cases n.testBit b <;> simp

/-- What `getImplicitDC` returns: the term with bit `b` flipped, and no maxterm meets it. -/
theorem getImplicitDC_spec {a dc : Term} {above : Bool} (ha : a.Ok w) (hlow : a.Low w)
    (h : getImplicitDC maxterms a w above = some dc) :
    ∃ b < w, (∀ t ∈ maxterms, t.intersects dc = false) ∧
      if above then Term.Neighbours b dc a ∧ a.mask.testBit b = false
      else Term.Neighbours b a dc ∧ 0 ≤ dc.value := by
  obtain ⟨v, m, rfl, -⟩ := ha.exists_nat
  obtain ⟨i, hi, hdc⟩ := List.exists_of_findSome?_eq_some h
  obtain ⟨hif, hmax⟩ := Option.filter_eq_some_iff.mp hdc
  have hiw : i < w := List.mem_range.mp hi
  have hor : (v : ℤ).lor m = (v ||| m : ℕ) := rfl
  rcases Nat.lt_or_ge (i % 64) 63 with hbit | hbit
  · have hvalue : (v : ℤ).lor (2 ^ (i % 64) : ℕ) = (v ||| 2 ^ (i % 64) : ℕ) := rfl
    have hclear : (v : ℤ).land ((2 ^ (i % 64) : ℕ) : ℤ).lnot = (v.ldiff (2 ^ (i % 64)) : ℕ) := rfl
    have hand (n : ℕ) : ((n : ℤ).land (2 ^ (i % 64) : ℕ) == 0) = !n.testBit (i % 64) :=
      (natCast_beq_zero _).trans (and_two_pow_beq n (i % 64))
    refine ⟨i % 64, (Nat.mod_le i 64).trans_lt hiw, by simpa using hmax, ?_⟩
    simp only [longBit_of_lt hbit, hor, hvalue, hclear, bne, hand] at hif
    generalize i % 64 = b at hif
    cases above
    · simp only [Bool.false_and, Bool.false_eq_true, if_false, Bool.not_false, Bool.true_and,
        Bool.not_not] at hif
      split at hif <;> cases hif
      rename_i hset
      obtain ⟨hfree, hv⟩ := ldiff_two_pow hset
      have hnear := Term.neighbours_nat (m := m) hfree
      rw [hv] at hnear
      exact ⟨hnear, Int.natCast_nonneg _⟩
    · simp only [Bool.true_and, Bool.not_true, Bool.false_and, Bool.not_eq_true', Nat.testBit_or,
        Bool.or_eq_false_iff] at hif
      split at hif
      · cases hif
        rename_i hfree
        exact ⟨add_two_pow_of_testBit hfree.1 ▸ Term.neighbours_nat hfree.1, hfree.2⟩
      · simp at hif
  · -- Neither test is passed at the sign.
    have hsign : i % 64 = 63 := by have := Nat.mod_lt i (by decide : 0 < 64); omega
    obtain ⟨hv, hm⟩ := (Term.low_nat.mp hlow).resolve_left (by have := Nat.mod_le i 64; omega)
    have hand (n : ℕ) : ((n : ℤ).land (.negSucc (2 ^ 63 - 1)) == 0) = decide (n < 2 ^ 63) := by
      refine (natCast_beq_zero _).trans ?_
      rw [Bool.eq_iff_iff, beq_iff_eq, decide_eq_true_eq]
      exact ldiff_sign
    have hle : ¬v ||| m < 2 ^ 63 := Nat.not_lt.mpr (hm.trans Nat.right_le_or)
    simp only [longBit_sign hsign, hor, bne, hand, decide_eq_false hle, decide_eq_true hv,
      Bool.and_false, Bool.not_true, Bool.false_eq_true, if_false] at hif
    cases hif

/-- The words outside every maxterm. -/
def allowed (maxterms : List Term) : Set ℕ := {x | ∀ t ∈ maxterms, x ∉ t.points}

theorem points_subset_allowed {dc : Term} (hmax : ∀ t ∈ maxterms, t.Ok w) (hdc : dc.Ok w)
    (h : ∀ t ∈ maxterms, t.intersects dc = false) : dc.points ⊆ allowed maxterms := by
  intro x hx t ht hxt
  have hmeet := (Term.intersects_iff (hmax t ht) hdc).mpr ⟨x, hxt, hx⟩
  rw [h t ht] at hmeet
  cases hmeet

/-- A term as both minimisers have it, and one that `1L << i` deals with. -/
def LowGood (w : ℕ) (maxterms : List Term) (j : ℕ) (t : Term) : Prop :=
  t.Good w (allowed maxterms) j ∧ t.Low w

theorem merges_lowGood : Merges (LowGood w maxterms) := fun ha hx hs => by
  obtain ⟨b, hb⟩ := Term.exists_neighbours_of_similar ha.1.ok hx.1.ok hs
    (hx.1.ones.trans (ha.1.ones ▸ rfl))
  obtain ⟨hgood, hcov⟩ := ha.1.merge hx.1.ok hx.1.allowed hb
  exact ⟨⟨hgood, .merge hb ha.1.ok (.inl ha.2)⟩, hcov⟩

/-- **The step lemma of an implicit don't-care.** -/
theorem grows_lowGood (hmax : ∀ t ∈ maxterms, t.Ok w) :
    Grows (LowGood w maxterms) maxterms w where
  above {j a dc} ha hdc := by
    obtain ⟨b, hbw, hmeet, hb, hfree⟩ := getImplicitDC_spec ha.1.ok ha.2 hdc
    have hok : dc.Ok w := by
      obtain ⟨v, m, rfl, rfl, hclear, hv, hm, hvm⟩ := hb.exists_nat ha.1.ok
      have hpow : 2 ^ b &&& m = 0 := by
        rw [Nat.and_comm, Nat.and_two_pow, show m.testBit b = false from hfree]
        simp
      rw [Term.ok_nat, add_two_pow_of_testBit hclear, Nat.and_or_distrib_right, hvm, hpow]
      exact ⟨Nat.or_lt_two_pow hv (Nat.pow_lt_pow_right one_lt_two hbw), hm, rfl⟩
    obtain ⟨hgood, hcov⟩ := ha.1.merge hok (points_subset_allowed hmax hok hmeet) hb
    exact ⟨⟨hgood, .merge hb ha.1.ok (.inl ha.2)⟩, hcov⟩
  below {j a dc} ha hdc := by
    obtain ⟨b, -, hmeet, hb, hnonneg⟩ := getImplicitDC_spec ha.1.ok ha.2 hdc
    obtain ⟨v', m, rfl, hv', hm, hvm⟩ := ha.1.ok.exists_nat
    obtain ⟨v, hv⟩ := Int.eq_ofNat_of_zero_le hnonneg
    obtain rfl : dc = ⟨v, m⟩ := by rw [← hv, show (m : ℤ) = dc.mask from hb.mask]
    have hvalue : (v' : ℤ) = v + 2 ^ b := hb.value
    obtain rfl : v' = v + 2 ^ b := by exact_mod_cast hvalue
    rw [add_two_pow_of_testBit hb.clear, Nat.and_or_distrib_right, Nat.or_eq_zero_iff] at hvm
    have hdcok : (⟨v, m⟩ : Term).Ok w :=
      Term.ok_nat.mpr ⟨(Nat.le_add_right ..).trans_lt hv', hm, hvm.1⟩
    have hones : Bits.bitCount (v + 2 ^ b) = j + 1 := ha.1.ones
    rw [bitCount_add_two_pow hb.clear] at hones
    have hdcgood : (⟨v, m⟩ : Term).Good w (allowed maxterms) j :=
      ⟨hdcok, Nat.succ_injective hones, points_subset_allowed hmax hdcok hmeet⟩
    exact ⟨(hdcgood.merge ha.1.ok ha.1.allowed hb).1, .merge hb hdcok (.inr ha.2)⟩

end SimplifyDC

end RiscvSoc
