import RiscvSoc.Rocket.DecodeCover
import Mathlib.Data.List.Pairwise

/-!
# The decoder implements its table

A table gives, for the addresses that match a key, the bits of that key's value, and for all others
the bits of the default; a don't-care leaves a bit open. `Implements` says so of the expressions
that the generator builds, and `Fits` when they do.

The minimiser without explicit zeros is right for every table. What goes wrong is around it. The
default is read with `toInt`, so bit `i` of it is taken to be bit `i % 32` (`defbit_eq`): a default
wider than 32 bits is wrong at an address that no key matches, unless its bits repeat. A table
without keys has no width to compute with. The comparisons a module has built already are looked up
by term alone, so those whose term covers a key have to agree with comparisons of this address at
this width of keys. And where the default leaves a bit open, keys of 64 bits and more have to be
ones that the other minimiser deals with.
-/

namespace RiscvSoc

open Bits

variable {ord : SetOrder} {σ : Type} {addr : σ → ℕ} {w : ℕ}

/-- The address agrees with every digit of the pattern. -/
def Pattern.Matches (p : Pattern) (a : ℕ) : Prop := a ∈ cube p.value p.mask

namespace DecodeLogic

/-! ### Comparisons -/

@[simp] theorem testBit_mask_term (p : Pattern) (i : ℕ) :
    (term p).mask.testBit i = p.mask.testBit i := rfl

@[simp] theorem testBit_value_term (p : Pattern) (i : ℕ) :
    (term p).value.testBit i = p.value.testBit i := rfl

theorem ok_term {p : Pattern} (h : p.width ≤ w) : (term p).Ok w :=
  have hle := Nat.pow_le_pow_right two_pos h
  Term.ok_nat.mpr ⟨p.value_lt.trans_le hle, p.mask_lt.trans_le hle, p.disjoint⟩

/-- A comparison tells whether the address is one of the term's words. -/
theorem test_iff {t : Term} (ht : t.Ok w) {e : σ} (he : addr e < 2 ^ w) :
    test addr w t e = true ↔ addr e ∈ t.points := by
  obtain ⟨v, m, rfl, hv, hm, hvm⟩ := ht.exists_nat
  have hbit : ∀ i, (addr e &&& (2 ^ w - (m + 1))).testBit i
      = ((addr e).testBit i && !m.testBit i) := by
    intro i
    rw [Nat.testBit_and, Nat.testBit_two_pow_sub_succ hm]
    by_cases hi : i < w
    · simp [hi]
    · have hzero : (addr e).testBit i = false :=
        Nat.testBit_lt_two_pow (he.trans_le (Nat.pow_le_pow_right two_pos (Nat.not_lt.mp hi)))
      simp [hzero]
  have hvalue (i : ℕ) (hi : m.testBit i = true) : v.testBit i = false := by
    have := congrArg (Nat.testBit · i) hvm
    simpa [hi] using this
  have hlit : (2 : ℤ) ^ w - ((m : ℤ) + 1) = (2 ^ w - (m + 1) : ℕ) := by
    rw [Nat.cast_sub hm]
    push_cast
    rfl
  have hand : (addr e : ℤ).land (2 ^ w - (m + 1) : ℕ) = (addr e &&& (2 ^ w - (m + 1)) : ℕ) := rfl
  rw [test, beq_iff_eq, Term.points_nat]
  simp only [hlit, hand, Int.natCast_eq_zero, ← Nat.cast_ite, Nat.cast_inj]
  split
  · rename_i hm
    constructor
    · intro heq i _
      rw [heq]
    · intro hx
      exact Nat.eq_of_testBit_eq fun i => hx i (by rw [hm, Nat.zero_testBit])
  · constructor
    · intro heq i hi
      rw [← heq, hbit, hi]
      simp
    · intro hx
      refine Nat.eq_of_testBit_eq fun i => ?_
      rw [hbit]
      cases hi : m.testBit i
      · rw [hx i hi]
        simp
      · simp [hvalue i hi]

/-- The term covers one of the keys. -/
def OverKey (mapping : List (Pattern × Pattern)) (t : Term) : Prop :=
  ∃ kv ∈ mapping, t.covers (term kv.1) = true

/-- The comparisons that are kept for a module, of terms that cover a key, agree with those of this
address at this width. -/
def Cache.Consistent (addr : σ → ℕ) (w : ℕ) (mapping : List (Pattern × Pattern))
    (cache : Cache σ) : Prop :=
  ∀ ts ∈ cache, OverKey mapping ts.1 → ∀ e, addr e < 2 ^ w → ts.2 e = test addr w ts.1 e

variable {cache : Cache σ} {mapping : List (Pattern × Pattern)}

theorem tests_spec (terms : List Term) (hterms : ∀ t ∈ terms, OverKey mapping t)
    (h : cache.Consistent addr w mapping) :
    (tests addr w cache terms).2.Consistent addr w mapping ∧ ∀ e, addr e < 2 ^ w →
      (tests addr w cache terms).1.map (· e) = terms.map (test addr w · e) := by
  induction terms generalizing cache with
  | nil => exact ⟨h, fun _ _ => rfl⟩
  | cons t ts ih =>
    have hts : ∀ t ∈ ts, OverKey mapping t := fun t ht => hterms t (List.mem_cons_of_mem _ ht)
    rw [tests]
    cases hl : cache.lookup t with
    | none =>
      have hcons : Cache.Consistent addr w mapping ((t, test addr w t) :: cache) := by
        intro ts hts hover e he
        rcases List.mem_cons.mp hts with rfl | hts
        · rfl
        · exact h ts hts hover e he
      obtain ⟨hc, hmap⟩ := ih hts hcons
      exact ⟨hc, fun e he => congrArg (_ :: ·) (hmap e he)⟩
    | some s =>
      have hmem : (t, s) ∈ cache := by
        obtain ⟨l₁, l₂, rfl, -⟩ := List.lookup_eq_some_iff.mp hl
        exact List.mem_append_right _ List.mem_cons_self
      obtain ⟨hc, hmap⟩ := ih hts h
      exact ⟨hc, fun e he =>
        congrArg₂ (· :: ·) (h _ hmem (hterms t List.mem_cons_self) e he) (hmap e he)⟩

theorem foldl_or (ss : List (σ → Bool)) (b : σ → Bool) (e : σ) :
    (ss.foldl (fun a b e => a e || b e) b) e = (b e || (ss.map (· e)).any id) := by
  induction ss generalizing b with
  | nil => simp
  | cons s ss ih => rw [List.foldl_cons, ih, List.map_cons, List.any_cons, id, Bool.or_assoc]

/-- The sum of products is true on the words of its terms. -/
theorem logic_spec {terms : List Term} (hterms : ∀ t ∈ terms, t.Ok w ∧ OverKey mapping t)
    (h : cache.Consistent addr w mapping) :
    (logic addr w cache terms).2.Consistent addr w mapping ∧ ∀ e, addr e < 2 ^ w →
      ((logic addr w cache terms).1 e = true ↔ ∃ t ∈ terms, addr e ∈ t.points) := by
  obtain ⟨hc, hmap⟩ := tests_spec terms (fun t ht => (hterms t ht).2) h
  refine ⟨hc, fun e he => ?_⟩
  have hany : (logic addr w cache terms).1 e = (terms.map (test addr w · e)).any id := by
    rw [← hmap e he]
    exact (foldl_or _ _ e).trans (Bool.false_or _)
  rw [hany, List.any_map, List.any_eq_true]
  exact exists_congr fun t => and_congr_right fun ht => test_iff (hterms t ht).1 he

/-! ### Tables -/

/-- No address matches both keys. -/
def Apart (kv kv' : Pattern × Pattern) : Prop := ∀ a, ¬(kv.1.Matches a ∧ kv'.1.Matches a)

instance : Std.Symm Apart := ⟨fun _ _ h a ha => h a ha.symm⟩

def NonOverlapping (mapping : List (Pattern × Pattern)) : Prop := mapping.Pairwise Apart

/-- The width of the widest key. -/
def keyWidth (mapping : List (Pattern × Pattern)) : ℕ := (mapping.map (·.1.width)).max?.getD 0

/-- Wherever the table specifies a bit, that is what the expression for it evaluates to: the bit of
the value whose key matches the address, or of the default if there is none. -/
structure Implements (addr : σ → ℕ) (default : Pattern) (mapping : List (Pattern × Pattern))
    (out : List (σ → Bool)) : Prop where
  matched : ∀ e, addr e < 2 ^ keyWidth mapping → ∀ kv ∈ mapping, kv.1.Matches (addr e) →
    ∀ i < kv.2.width, kv.2.mask.testBit i = false →
      out[i]?.map (· e) = some (kv.2.value.testBit i)
  unmatched : ∀ e, addr e < 2 ^ keyWidth mapping → (∀ kv ∈ mapping, ¬kv.1.Matches (addr e)) →
    ∀ i < default.width, default.mask.testBit i = false →
      out[i]?.map (· e) = some (default.value.testBit i)

theorem NonOverlapping.eq (h : NonOverlapping mapping) {kv kv' : Pattern × Pattern}
    (hkv : kv ∈ mapping) (hkv' : kv' ∈ mapping) {a : ℕ} (ha : kv.1.Matches a)
    (ha' : kv'.1.Matches a) : kv = kv' := by
  by_contra hne
  exact List.Pairwise.forall h hkv hkv' hne a ⟨ha, ha'⟩

theorem keyWidth_eq (h : mapping ≠ []) :
    (mapping.map (·.1.width)).max? = some (keyWidth mapping) := by
  obtain ⟨w, hw⟩ := Option.isSome_iff_exists.mp
    (List.isSome_max?_of_ne_nil (l := mapping.map (·.1.width)) (by simpa using h))
  rw [keyWidth, hw, Option.getD_some]

theorem width_le_keyWidth {kv : Pattern × Pattern}
    (h : kv ∈ mapping) : kv.1.width ≤ keyWidth mapping :=
  (List.max?_eq_some_iff.mp (keyWidth_eq (List.ne_nil_of_mem h))).2 _
    (List.mem_map.mpr ⟨kv, h, rfl⟩)

/-! ### One output bit -/

/-- `toInt` keeps 32 bits of the default, and the shift five bits of its distance. -/
theorem defbit_eq (p : Pattern) (i : ℕ) : defbit (term p) i = p.value.testBit (i % 32) := by
  change (p.value % 2 ^ 32).testBit (i % 32) = _
  rw [Nat.testBit_mod_two_pow, decide_eq_true (Nat.mod_lt i (by decide)), Bool.true_and]

/-- Entries of the table, chosen by their value, as the minimiser gets them. -/
def select (mapping : List (Pattern × Pattern)) (sel : Term → Bool) : List Term :=
  ((mapping.map fun kv => (term kv.1, term kv.2)).filter fun kt => sel kt.2).map (·.1)

section bit

variable {mapping : List (Pattern × Pattern)} {sel sel' : Term → Bool}

variable {t : Term} {kv : Pattern × Pattern}

theorem mem_select :
    t ∈ select mapping sel ↔ ∃ kv ∈ mapping, sel (term kv.2) = true ∧ term kv.1 = t := by
  simp only [select, List.mem_map, List.mem_filter]
  constructor
  · rintro ⟨_, ⟨⟨kv, hkv, rfl⟩, hsel⟩, rfl⟩
    exact ⟨kv, hkv, hsel, rfl⟩
  · rintro ⟨kv, hkv, hsel, rfl⟩
    exact ⟨_, ⟨⟨kv, hkv, rfl⟩, hsel⟩, rfl⟩

theorem overKey_of_covers {u : Term} (h : ∃ t ∈ select mapping sel, u.covers t = true) :
    OverKey mapping u := by
  obtain ⟨t, ht, hcov⟩ := h
  obtain ⟨kv, hkv, -, rfl⟩ := mem_select.mp ht
  exact ⟨kv, hkv, hcov⟩

theorem ok_of_mem_select (h : t ∈ select mapping sel) : t.Ok (keyWidth mapping) := by
  obtain ⟨kv, hkv, -, rfl⟩ := mem_select.mp h
  exact ok_term (width_le_keyWidth hkv)

/-- The entry an address matches is the only one that can have it. -/
theorem NonOverlapping.sel_of_mem (h : NonOverlapping mapping) {a : ℕ}
    (hkv : kv ∈ mapping) (ha : kv.1.Matches a) (ht : t ∈ select mapping sel)
    (hat : a ∈ t.points) : sel (term kv.2) = true := by
  obtain ⟨kv', hkv', hsel, rfl⟩ := mem_select.mp ht
  rwa [h.eq hkv hkv' ha hat]

/-- What a cover says about the address of an entry: it has the address if the entry was selected,
and only if it was allowed. -/
theorem matches_iff_of_isCover {cover implicants : List Term} {U : Set ℕ} {a : ℕ}
    (h : IsCover w (select mapping sel) implicants U cover) (hkv : kv ∈ mapping)
    (ha : kv.1.Matches a)
    (hU : a ∈ U → sel (term kv.2) = true) :
    (∃ p ∈ cover, a ∈ p.points) ↔ sel (term kv.2) = true := by
  constructor
  · rintro ⟨p, hp, hap⟩
    exact hU (h.allowed p hp hap)
  · intro hsel
    exact h.minterms _ (mem_select.mpr ⟨kv, hkv, hsel, rfl⟩) a ha

/-- What an expression has to be for output bit `i`. -/
structure BitOk (addr : σ → ℕ) (default : Pattern) (mapping : List (Pattern × Pattern)) (i : ℕ)
    (b : σ → Bool) : Prop where
  matched : ∀ e, addr e < 2 ^ keyWidth mapping → ∀ kv ∈ mapping, kv.1.Matches (addr e) →
    kv.2.mask.testBit i = false → b e = kv.2.value.testBit i
  unmatched : ∀ e, addr e < 2 ^ keyWidth mapping → (∀ kv ∈ mapping, ¬kv.1.Matches (addr e)) →
    default.mask.testBit i = false → b e = defbit (term default) i

/-- The keys whose value has a one at bit `i` are ones that `1L << _` deals with. -/
def LowAt (mapping : List (Pattern × Pattern)) (i : ℕ) : Prop :=
  ∀ kv ∈ mapping, (!(term kv.2).mask.testBit i && (term kv.2).value.testBit i) = true →
    (term kv.1).Low (keyWidth mapping)

variable (ord)

/-- The minimiser finds an expression for output bit `i`. -/
def Minimised (addr : σ → ℕ) (default : Pattern) (mapping : List (Pattern × Pattern))
    (cache : Cache σ) (i : ℕ) : Prop :=
  ∃ b cache', outputBit ord addr (keyWidth mapping) (term default)
      (mapping.map fun kv => (term kv.1, term kv.2)) i cache = some (b, cache') ∧
    cache'.Consistent addr (keyWidth mapping) mapping ∧ BitOk addr default mapping i b

variable {default : Pattern} {cache : Cache σ} {i : ℕ}

section

variable (hcache : cache.Consistent addr (keyWidth mapping) mapping)
  (hkeys : NonOverlapping mapping)
include hcache hkeys

theorem outputBit_dontCare (hlow : LowAt mapping i) (hmask : default.mask.testBit i = true) :
    Minimised ord addr default mapping cache i := by
  have hdisj : ∀ t ∈ select mapping fun v => !v.mask.testBit i && v.value.testBit i,
      ∀ u ∈ select mapping fun v => !v.mask.testBit i && !v.value.testBit i,
      u.intersects t = false := by
    intro t ht u hu
    by_contra hmeet
    obtain ⟨x, hxu, hxt⟩ := (Term.intersects_iff (ok_of_mem_select hu) (ok_of_mem_select ht)).mp
      (Bool.eq_true_of_not_eq_false hmeet)
    obtain ⟨kv, hkv, hsel, rfl⟩ := mem_select.mp ht
    have hsel' := hkeys.sel_of_mem hkv hxt hu hxu
    rw [Bool.and_eq_true] at hsel hsel'
    rw [hsel.2] at hsel'
    exact Bool.noConfusion hsel'.2
  have hminlow : ∀ t ∈ select mapping fun v => !v.mask.testBit i && v.value.testBit i,
      t.Low (keyWidth mapping) := by
    intro t ht
    obtain ⟨kv, hkv, hsel, rfl⟩ := mem_select.mp ht
    exact hlow kv hkv hsel
  obtain ⟨cover, hcover, hc⟩ := SimplifyDC.apply_spec ord hminlow
    (fun t ht => ok_of_mem_select ht) (fun t ht => ok_of_mem_select ht) hdisj
  obtain ⟨hcons, heval⟩ := logic_spec
    (fun t ht => ⟨hc.ok t ht, overKey_of_covers (hc.grown t ht)⟩) hcache
  refine ⟨(logic addr (keyWidth mapping) cache cover).1, _, ?_, hcons,
    fun e he kv hkv hmat hfix => ?_, fun e he hno hfix => ?_⟩
  · rw [outputBit]
    refine (if_pos hmask).trans ?_
    exact Option.bind_eq_some_iff.mpr ⟨cover, hcover, rfl⟩
  · rw [Bool.eq_iff_iff, heval e he, matches_iff_of_isCover hc hkv hmat, Bool.and_eq_true]
    · exact and_iff_right (by simpa using hfix)
    · intro hallowed
      by_contra hsel
      refine hallowed (term kv.1) (mem_select.mpr ⟨kv, hkv, ?_, rfl⟩) hmat
      simp only [testBit_mask_term, testBit_value_term, hfix] at hsel ⊢
      simpa using hsel
  · rw [hmask] at hfix
    cases hfix

/-- The entries that differ from the default are minimised. -/
theorem outputBit_specified (hmask : default.mask.testBit i = false) :
    Minimised ord addr default mapping cache i := by
  set d := defbit (term default) i with hd
  have hdiffer : (if d then select mapping fun v => !v.mask.testBit i && !v.value.testBit i
      else select mapping fun v => !v.mask.testBit i && v.value.testBit i)
      = select mapping fun v => !v.mask.testBit i && (v.value.testBit i ^^ d) := by
    cases d <;> simp
  obtain ⟨cover, hcover, hc⟩ := Simplify.apply_spec ord
    (select mapping fun v => !v.mask.testBit i && (v.value.testBit i ^^ d))
    (select mapping fun v => v.mask.testBit i)
    (fun t ht => (List.mem_append.mp ht).elim ok_of_mem_select ok_of_mem_select)
  have hover : ∀ t ∈ cover, OverKey mapping t := fun t ht => by
    obtain ⟨u, hu, hcov⟩ := hc.grown t ht
    rcases List.mem_append.mp hu with hu | hu
    · exact overKey_of_covers ⟨u, hu, hcov⟩
    · exact overKey_of_covers ⟨u, hu, hcov⟩
  obtain ⟨hcons, heval⟩ := logic_spec (fun t ht => ⟨hc.ok t ht, hover t ht⟩) hcache
  refine ⟨fun e => (logic addr (keyWidth mapping) cache cover).1 e ^^ d, _, ?_, hcons,
    fun e he kv hkv hmat hfix => ?_, fun e he hno _ => ?_⟩
  · rw [outputBit]
    refine (if_neg (by simpa using hmask)).trans ?_
    refine Option.bind_eq_some_iff.mpr ⟨cover, ?_, rfl⟩
    rw [← hcover, ← hdiffer]
    rfl
  · have hdiff : (logic addr (keyWidth mapping) cache cover).1 e
        = (kv.2.value.testBit i ^^ d) := by
      rw [Bool.eq_iff_iff, heval e he, matches_iff_of_isCover hc hkv hmat, Bool.and_eq_true]
      · exact and_iff_right (by simpa using hfix)
      · rintro ⟨t, ht, hat⟩
        rcases List.mem_append.mp ht with ht | ht
        · exact hkeys.sel_of_mem hkv hmat ht hat
        · have hopen := hkeys.sel_of_mem hkv hmat ht hat
          exact absurd (hopen.symm.trans hfix) Bool.true_eq_false.mp
    simp only [hdiff, Bool.xor_assoc, Bool.xor_self, Bool.xor_false]
  · have hnone : (logic addr (keyWidth mapping) cache cover).1 e = false := by
      rw [← Bool.not_eq_true, heval e he]
      rintro ⟨p, hp, hap⟩
      obtain ⟨t, ht, hat⟩ := hc.allowed p hp hap
      obtain ⟨kv, hkv, hmat⟩ : ∃ kv ∈ mapping, term kv.1 = t := by
        rcases List.mem_append.mp ht with ht | ht
        · obtain ⟨kv, hkv, -, heq⟩ := mem_select.mp ht
          exact ⟨kv, hkv, heq⟩
        · obtain ⟨kv, hkv, -, heq⟩ := mem_select.mp ht
          exact ⟨kv, hkv, heq⟩
      subst hmat
      exact hno kv hkv hat
    simp only [hnone, Bool.false_xor, hd]

/-- **One output bit.** Whatever the table, the minimiser finds an expression, and it is right at
every address, but for the bit that is taken for the default. -/
theorem outputBit_spec (hlow : ∀ i, default.mask.testBit i = true → LowAt mapping i) (i : ℕ) :
    Minimised ord addr default mapping cache i := by
  cases hmask : default.mask.testBit i
  · exact outputBit_specified ord hcache hkeys hmask
  · exact outputBit_dontCare ord hcache hkeys (hlow i hmask) hmask

end

theorem outputBits_spec (hkeys : NonOverlapping mapping)
    (hlow : ∀ i, default.mask.testBit i = true → LowAt mapping i) :
    ∀ (n i : ℕ) (cache : Cache σ), cache.Consistent addr (keyWidth mapping) mapping →
      ∃ out cache', outputBits ord addr (keyWidth mapping) (term default)
          (mapping.map fun kv => (term kv.1, term kv.2)) n i cache = some (out, cache') ∧
        cache'.Consistent addr (keyWidth mapping) mapping ∧
        ∀ k < n, ∃ b, out[k]? = some b ∧ BitOk addr default mapping (i + k) b := by
  intro n
  induction n with
  | zero => exact fun i cache hc => ⟨[], cache, rfl, hc, fun k hk => absurd hk (Nat.not_lt_zero k)⟩
  | succ n ih =>
    intro i cache hc
    obtain ⟨b, cache₁, hb, hc₁, hok⟩ := outputBit_spec ord hc hkeys hlow i
    obtain ⟨bs, cache₂, hbs, hc₂, hrest⟩ := ih (i + 1) cache₁ hc₁
    refine ⟨b :: bs, cache₂, ?_, hc₂, fun k hk => ?_⟩
    · rw [outputBits, hb, Option.bind_eq_bind, Option.bind_some]
      simp only [hbs, Option.bind_eq_bind, Option.bind_some, Option.pure_def]
    · cases k with
      | zero => exact ⟨b, rfl, hok⟩
      | succ k =>
        obtain ⟨b', hb', hok'⟩ := hrest k (Nat.lt_of_succ_lt_succ hk)
        exact ⟨b', hb', by rwa [Nat.add_right_comm] at hok'⟩

end bit

/-! ### The whole table -/

section table

variable (ord) {default : Pattern} {mapping : List (Pattern × Pattern)} {cache : Cache σ}

/-- A call succeeds on every table with a key, every bit of it is what `BitOk` says, and the module
is left with comparisons of this address. -/
theorem apply_spec (hcache : cache.Consistent addr (keyWidth mapping) mapping)
    (hkeys : NonOverlapping mapping) (hlow : ∀ i, default.mask.testBit i = true → LowAt mapping i)
    (hne : mapping ≠ []) : ∃ out cache', apply ord cache addr default mapping = some (out, cache') ∧
      cache'.Consistent addr (keyWidth mapping) mapping ∧
      (∀ i < default.width, ∃ b, out[i]? = some b ∧ BitOk addr default mapping i b) ∧
      ∀ kv ∈ mapping, ∀ i < kv.2.width, ∃ b, out[i]? = some b ∧ BitOk addr default mapping i b := by
  obtain ⟨v, hv⟩ := Option.isSome_iff_exists.mp
    (List.isSome_max?_of_ne_nil (l := mapping.map (·.2.width)) (by simpa using hne))
  obtain ⟨out, cache', hout, hcons, hbits⟩ :=
    outputBits_spec ord hkeys hlow (max default.width v) 0 cache hcache
  have hbits' : ∀ i < max default.width v,
      ∃ b, out[i]? = some b ∧ BitOk addr default mapping i b := fun i hi => by
    simpa using hbits i hi
  have hapart : ((mapping.map fun kv => (term kv.1, term kv.2)).map (·.1)).Pairwise
      fun t u => ¬t.intersects u := by
    rw [List.map_map, List.pairwise_map]
    refine hkeys.imp_of_mem fun {kv kv'} hkv hkv' h hmeet => ?_
    obtain ⟨a, ha, ha'⟩ := (Term.intersects_iff (ok_term (width_le_keyWidth hkv))
      (ok_term (width_le_keyWidth hkv'))).mp hmeet
    exact h a ⟨ha, ha'⟩
  refine ⟨out, cache', ?_, hcons, fun i hi => hbits' i (lt_max_of_lt_left hi),
    fun kv hkv i hi => ?_⟩
  · simp only [apply, keyWidth_eq hne, hv, guard, if_pos hapart, Option.bind_eq_bind,
      Option.bind_some, Option.pure_def]
    exact hout
  · have hle := (List.max?_eq_some_iff.mp hv).2 _ (List.mem_map.mpr ⟨kv, hkv, rfl⟩)
    exact hbits' i (lt_max_of_lt_right (hi.trans_le hle))

/-- What the bits evaluate to: those of the values are right, those of the default are read at the
position modulo 32. -/
theorem apply_eq (hcache : cache.Consistent addr (keyWidth mapping) mapping)
    (hkeys : NonOverlapping mapping) (hlow : ∀ i, default.mask.testBit i = true → LowAt mapping i)
    (hne : mapping ≠ []) : ∃ out cache', apply ord cache addr default mapping = some (out, cache') ∧
      (∀ e, addr e < 2 ^ keyWidth mapping → ∀ kv ∈ mapping, kv.1.Matches (addr e) →
        ∀ i < kv.2.width, kv.2.mask.testBit i = false →
          out[i]?.map (· e) = some (kv.2.value.testBit i)) ∧
      ∀ e, addr e < 2 ^ keyWidth mapping → (∀ kv ∈ mapping, ¬kv.1.Matches (addr e)) →
        ∀ i < default.width, default.mask.testBit i = false →
          out[i]?.map (· e) = some (default.value.testBit (i % 32)) := by
  obtain ⟨out, cache', happly, -, hdefault, hvalues⟩ := apply_spec ord hcache hkeys hlow hne
  refine ⟨out, cache', happly, fun e he kv hkv hmat i hi hfix => ?_, fun e he hno i hi hfix => ?_⟩
  · obtain ⟨b, hb, hok⟩ := hvalues kv hkv i hi
    rw [hb, Option.map_some, hok.matched e he kv hkv hmat hfix]
  · obtain ⟨b, hb, hok⟩ := hdefault i hi
    rw [hb, Option.map_some, hok.unmatched e he hno hfix, defbit_eq]

/-- When the decoder can be relied on: the table has a key; the bits of its default are found where
the generator looks for them, or no address needs the default; the module's comparisons so far agree
with those of this address and width, where their terms cover a key; and where the default leaves a
bit open, `1L << _` deals with the keys whose value has a one there. -/
structure Fits (addr : σ → ℕ) (default : Pattern) (mapping : List (Pattern × Pattern))
    (cache : Cache σ) : Prop where
  nonempty : mapping ≠ []
  found : (∀ i < default.width, default.mask.testBit i = false →
      default.value.testBit (i % 32) = default.value.testBit i) ∨
    ∀ e, addr e < 2 ^ keyWidth mapping → ∃ kv ∈ mapping, kv.1.Matches (addr e)
  cache : cache.Consistent addr (keyWidth mapping) mapping
  low : ∀ i, default.mask.testBit i = true → LowAt mapping i

end table

end DecodeLogic

end RiscvSoc
