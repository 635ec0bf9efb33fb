import RiscvSoc.Rocket.DecodePrimes

/-!
# The minimiser is sound

The second half of the minimiser chooses among the primes. An implicant is dropped only for one
that covers whatever it covered; the essential ones are kept; and from what is left one implicant
is picked for every minterm that is still uncovered. So the choice covers what the primes cover,
and as every prime is allowed, so is the cover.

Without explicit zeros neither of the assertions on the way can fail, and there is always a cover.
With explicit zeros that is so of the tables whose minterms `1L << i` deals with (`Term.Low`); what
is known of the others is in `DecodeWide.lean`.
-/

namespace RiscvSoc

open Bits

variable {ord : SetOrder} {w : ℕ}

/-- Every minterm is under one term of the list. -/
def Covered (minterms cover : List Term) : Prop := ∀ m ∈ minterms, ∃ p ∈ cover, p.covers m = true

/-! ### The essential implicants -/

namespace Simplify

variable {prime minterms : List Term} {α : Type}

theorem covered_without {q : Term} (h : Covered minterms prime)
    (hq : findDominated prime minterms = some q) :
    Covered minterms (without prime [q]) := by
  obtain ⟨p, hp, -, hdom⟩ := mem_of_findDominated hq
  simp only [dominates, Bool.and_eq_true, decide_eq_true_eq, List.all_eq_true] at hdom
  obtain ⟨hlt, hall⟩ := hdom
  have hne : p ≠ q := by
    rintro rfl
    exact lt_irrefl _ hlt
  intro m hm
  obtain ⟨c, hc, hcov⟩ := h m hm
  by_cases hcq : c = q
  · subst hcq
    have hpm := hall m (List.mem_filter.mpr ⟨hm, hcov⟩)
    exact ⟨p, mem_without.mpr ⟨hp, by simpa using hne⟩, hpm⟩
  · exact ⟨c, mem_without.mpr ⟨hc, by simpa using hcq⟩, hcov⟩

/-- What is left to choose from, and what is left to cover. -/
structure Chosen (prime minterms : List Term) (r : List Term × List Term × List Term) : Prop where
  essential : r.1 ⊆ prime
  rest : r.2.1 ⊆ prime
  uncovered : ∀ m ∈ minterms, (∃ p ∈ r.1, p.covers m = true) ∨ m ∈ r.2.2
  coverable : Covered r.2.2 r.2.1

/-- One pass keeps the essential implicants and what they leave uncovered. -/
theorem chosen_essentials (h : Covered minterms prime) :
    Chosen prime minterms (essentials prime minterms, without prime (essentials prime minterms),
      uncoveredBy minterms (essentials prime minterms)) := by
  have hun : ∀ {m}, m ∈ uncoveredBy minterms (essentials prime minterms) ↔
      m ∈ minterms ∧ ∀ p ∈ essentials prime minterms, p.covers m = false := by
    intro m
    simp [uncoveredBy]
  refine ⟨List.filter_subset_self _, List.filter_subset_self _, fun m hm => ?_, fun m hm => ?_⟩
  · by_cases hex : ∃ p ∈ essentials prime minterms, p.covers m = true
    · exact .inl hex
    · exact .inr (hun.mpr ⟨hm, fun p hp => Bool.eq_false_of_not_eq_true fun hcov =>
        hex ⟨p, hp, hcov⟩⟩)
  · obtain ⟨hmem, hno⟩ := hun.mp hm
    obtain ⟨p, hp, hcov⟩ := h m hmem
    refine ⟨p, mem_without.mpr ⟨hp, fun hess => ?_⟩, hcov⟩
    rw [hno p hess] at hcov
    cases hcov

theorem getEssentialPrimeImplicants_spec (prime minterms : List Term)
    (h : Covered minterms prime) :
    Chosen prime minterms (getEssentialPrimeImplicants prime minterms) := by
  induction prime, minterms using getEssentialPrimeImplicants.induct with
  | case1 prime minterms q hq ih =>
    rw [getEssentialPrimeImplicants, hq]
    have hch := ih (covered_without h hq)
    have hsub : without prime [q] ⊆ prime := fun _ ht => (mem_without.mp ht).1
    exact ⟨fun _ ht => hsub (hch.essential ht), fun _ ht => hsub (hch.rest ht), hch.uncovered,
      hch.coverable⟩
  | case2 prime minterms hq essential uncovered hdone =>
    rw [getEssentialPrimeImplicants, hq]
    change Chosen _ _ (dite _ _ _)
    rw [dif_pos hdone]
    exact chosen_essentials h
  | case3 prime minterms hq essential nonessential uncovered hmore ih =>
    rw [getEssentialPrimeImplicants, hq]
    change Chosen _ _ (dite _ _ _)
    rw [dif_neg hmore]
    have hfirst := chosen_essentials h
    have hch := ih hfirst.coverable
    refine ⟨fun t ht => ?_, fun t ht => hfirst.rest (hch.rest ht), fun m hm => ?_, hch.coverable⟩
    · rcases List.mem_append.mp ht with ht | ht
      · exact hfirst.essential ht
      · exact hfirst.rest (hch.essential ht)
    · rcases hfirst.uncovered m hm with ⟨p, hp, hcov⟩ | hun
      · exact .inl ⟨p, List.mem_append_left _ hp, hcov⟩
      · rcases hch.uncovered m hun with ⟨p, hp, hcov⟩ | hun
        · exact .inl ⟨p, List.mem_append_right _ hp, hcov⟩
        · exact .inr hun

/-! ### Picking an implicant for every minterm left -/

theorem foldlM_append (xs : List (List α)) (x : List α) :
    xs.foldlM (fun x y => some (x ++ y)) x = some (x ++ xs.flatten) := by
  induction xs generalizing x with
  | nil => simp
  | cons y ys ih =>
    rw [List.foldlM_cons, Option.bind_eq_bind, Option.bind_some, ih]
    simp

theorem reduceLeft_append {xs : List (List α)} (h : xs ≠ []) :
    reduceLeft (fun x y => some (x ++ y)) xs = some xs.flatten := by
  obtain ⟨x, xs, rfl⟩ := List.exists_cons_of_ne_nil h
  exact foldlM_append xs x

/-- Choosing among the elements of a sequence gives one of them. -/
theorem reduceLeft_mem {f : α → α → α} (hf : ∀ a b, f a b = a ∨ f a b = b) {xs : List α}
    (h : xs ≠ []) : ∃ x ∈ xs, reduceLeft (fun a b => some (f a b)) xs = some x := by
  obtain ⟨x, xs, rfl⟩ := List.exists_cons_of_ne_nil h
  rw [reduceLeft]
  clear h
  induction xs generalizing x with
  | nil => exact ⟨x, List.mem_singleton_self x, rfl⟩
  | cons y ys ih =>
    obtain ⟨z, hz, heq⟩ := ih (f x y)
    refine ⟨z, ?_, heq⟩
    rcases List.mem_cons.mp hz with rfl | hz
    · rcases hf x y with h | h <;> simp [h]
    · exact List.mem_cons_of_mem _ (List.mem_cons_of_mem _ hz)

/-- Ways to cover the minterms `ms`: each picks among the implicants, and there is one. -/
structure Picks (implicants ms : List Term) (c : List (List Term)) : Prop where
  nonempty : c ≠ []
  subset : ∀ a ∈ c, a ⊆ implicants
  covered : ∀ a ∈ c, Covered ms a

/-- One factor of the product: the implicants over a minterm. -/
def choices (implicants : List Term) (m : Term) : List (List Term) :=
  (implicants.filter (·.covers m)).map fun i => [i]

variable {implicants : List Term}

theorem picks_choices {m : Term} (h : ∃ p ∈ implicants, p.covers m = true) :
    Picks implicants [m] (choices implicants m) := by
  obtain ⟨p, hp, hcov⟩ := h
  have hmem : ∀ a ∈ choices implicants m, ∃ i ∈ implicants, i.covers m = true ∧ a = [i] := by
    intro a ha
    obtain ⟨i, hi, rfl⟩ := List.mem_map.mp ha
    exact ⟨i, (List.mem_filter.mp hi).1, (List.mem_filter.mp hi).2, rfl⟩
  refine ⟨?_, fun a ha => ?_, fun a ha m' hm' => ?_⟩
  · exact List.ne_nil_of_mem (List.mem_map.mpr ⟨p, List.mem_filter.mpr ⟨hp, hcov⟩, rfl⟩)
  · obtain ⟨i, hi, -, rfl⟩ := hmem a ha
    exact List.cons_subset.mpr ⟨hi, List.nil_subset _⟩
  · obtain ⟨i, -, hi, rfl⟩ := hmem a ha
    exact ⟨i, List.mem_singleton_self i, List.mem_singleton.mp hm' ▸ hi⟩

/-- One multiplication of the product. -/
def product (c0 c1 : List (List Term)) : Option (List (List Term)) :=
  reduceLeft (fun x y => some (x ++ y)) (c0.map fun a => c1.map (· ∪ a))

theorem picks_product {ms ms' : List Term} {c0 c1 : List (List Term)}
    (h0 : Picks implicants ms c0) (h1 : Picks implicants ms' c1) :
    ∃ c, product c0 c1 = some c ∧ Picks implicants (ms ++ ms') c := by
  have hmem : ∀ {a}, a ∈ (c0.map fun a => c1.map (· ∪ a)).flatten ↔
      ∃ x ∈ c0, ∃ y ∈ c1, y ∪ x = a := by
    intro a
    simp only [List.mem_flatten, List.mem_map]
    constructor
    · rintro ⟨_, ⟨x, hx, rfl⟩, ha⟩
      obtain ⟨y, hy, rfl⟩ := List.mem_map.mp ha
      exact ⟨x, hx, y, hy, rfl⟩
    · rintro ⟨x, hx, y, hy, rfl⟩
      exact ⟨_, ⟨x, hx, rfl⟩, List.mem_map.mpr ⟨y, hy, rfl⟩⟩
  refine ⟨_, reduceLeft_append (by simpa using h0.nonempty), ?_, fun a ha => ?_, fun a ha => ?_⟩
  · obtain ⟨x, hx⟩ := List.exists_mem_of_ne_nil c0 h0.nonempty
    obtain ⟨y, hy⟩ := List.exists_mem_of_ne_nil c1 h1.nonempty
    exact List.ne_nil_of_mem (hmem.mpr ⟨x, hx, y, hy, rfl⟩)
  · obtain ⟨x, hx, y, hy, rfl⟩ := hmem.mp ha
    intro t ht
    rcases List.mem_union_iff.mp ht with ht | ht
    · exact h1.subset y hy ht
    · exact h0.subset x hx ht
  · obtain ⟨x, hx, y, hy, rfl⟩ := hmem.mp ha
    intro m hm
    rcases List.mem_append.mp hm with hm | hm
    · obtain ⟨p, hp, hcov⟩ := h0.covered x hx m hm
      exact ⟨p, List.mem_union_iff.mpr (.inr hp), hcov⟩
    · obtain ⟨p, hp, hcov⟩ := h1.covered y hy m hm
      exact ⟨p, List.mem_union_iff.mpr (.inl hp), hcov⟩

theorem picks_foldlM {ms : List Term} (hms : Covered ms implicants) :
    ∀ {done : List Term} {c0 : List (List Term)}, Picks implicants done c0 →
      ∃ c, (ms.map (choices implicants)).foldlM product c0 = some c ∧
        Picks implicants (done ++ ms) c := by
  induction ms with
  | nil => exact fun {done c0} h => ⟨c0, rfl, by rwa [List.append_nil]⟩
  | cons m ms ih =>
    intro done c0 h
    obtain ⟨c, hc, hpicks⟩ := picks_product h (picks_choices (hms m List.mem_cons_self))
    obtain ⟨c', hc', hpicks'⟩ := ih (fun m hm => hms m (List.mem_cons_of_mem _ hm)) hpicks
    refine ⟨c', ?_, ?_⟩
    · rw [List.map_cons, List.foldlM_cons, hc]
      exact hc'
    · rwa [List.append_assoc] at hpicks'

variable (ord w) in
theorem getCover_spec {minterms : List Term} (h : Covered minterms implicants) :
    ∃ c, getCover ord implicants minterms w = some c ∧ c ⊆ implicants ∧ Covered minterms c := by
  cases minterms with
  | nil => exact ⟨[], rfl, List.nil_subset _, fun m hm => absurd hm (by simp)⟩
  | cons m ms =>
    obtain ⟨all, hall, hpicks⟩ := picks_foldlM (fun m hm => h m (List.mem_cons_of_mem _ hm))
      (picks_choices (h m List.mem_cons_self))
    have hlists : all.map ord.list ≠ [] := by simpa using hpicks.nonempty
    obtain ⟨c, hc, hcheap⟩ := reduceLeft_mem
      (fun a b => (em (cheaper a b w = true)).imp (if_pos ·) (if_neg ·)) hlists
    obtain ⟨a, ha, rfl⟩ := List.mem_map.mp hc
    refine ⟨ord.list a, ?_, fun t ht => hpicks.subset a ha (SetOrder.mem_list.mp ht),
      fun m' hm' => ?_⟩
    · rw [getCover, if_neg (List.cons_ne_nil m ms)]
      refine Option.bind_eq_some_iff.mpr ⟨all, ?_, hcheap⟩
      exact hall
    · obtain ⟨p, hp, hcov⟩ := hpicks.covered a ha m' hm'
      exact ⟨p, SetOrder.mem_list.mpr hp, hcov⟩

variable (ord w) in
/-- The choice among the primes, as both minimisers make it. -/
theorem exists_choice {prime minterms : List Term} (h : Covered minterms prime) :
    ∃ c, getCover ord (getEssentialPrimeImplicants prime minterms).2.1
        (getEssentialPrimeImplicants prime minterms).2.2 w = some c ∧
      (getEssentialPrimeImplicants prime minterms).1 ++ c ⊆ prime ∧
      Covered minterms ((getEssentialPrimeImplicants prime minterms).1 ++ c) := by
  have hch := getEssentialPrimeImplicants_spec prime minterms h
  obtain ⟨c, hc, hsub, hcov⟩ := getCover_spec ord w hch.coverable
  refine ⟨c, hc, List.append_subset.mpr ⟨hch.essential, fun t ht => hch.rest (hsub ht)⟩,
    fun m hm => ?_⟩
  rcases hch.uncovered m hm with ⟨p, hp, hpm⟩ | hun
  · exact ⟨p, List.mem_append_left _ hp, hpm⟩
  · obtain ⟨p, hp, hpm⟩ := hcov m hun
    exact ⟨p, List.mem_append_right _ hp, hpm⟩

theorem covered_any {minterms cover : List Term} :
    Covered minterms cover ↔ ∀ t ∈ minterms, cover.any (·.covers t) = true := by
  simp only [Covered, List.any_eq_true]

end Simplify

/-! ### The covers -/

/-- A cover as a set of addresses: every minterm is in it, it keeps to the words allowed, and each
of its terms has grown from one that was given. -/
structure IsCover (w : ℕ) (minterms implicants : List Term) (U : Set ℕ) (cover : List Term) :
    Prop where
  ok : ∀ p ∈ cover, p.Ok w
  minterms : ∀ m ∈ minterms, ∀ x ∈ m.points, ∃ p ∈ cover, x ∈ p.points
  allowed : ∀ p ∈ cover, p.points ⊆ U
  grown : ∀ p ∈ cover, ∃ t ∈ implicants, p.covers t = true

theorem IsCover.of_primes {implicants minterms prime cover : List Term} {U : Set ℕ}
    {good : ℕ → Term → Prop} (hgood : ∀ {j t}, good j t → t.Good w U j)
    (hp : Primes (fun j t => good j t ∧ ∃ m ∈ implicants, t.covers m = true) implicants prime)
    (hsub : cover ⊆ prime) (hcov : Covered minterms cover) :
    IsCover w minterms implicants U cover where
  ok p hc := by
    obtain ⟨j, h, -⟩ := hp.ok p (hsub hc)
    exact (hgood h).ok
  minterms m hm x hx := by
    obtain ⟨p, hc, hpm⟩ := hcov m hm
    exact ⟨p, hc, Term.points_subset hpm hx⟩
  allowed p hc := by
    obtain ⟨j, h, -⟩ := hp.ok p (hsub hc)
    exact (hgood h).allowed
  grown p hc := by
    obtain ⟨j, -, h⟩ := hp.ok p (hsub hc)
    exact h

/-- The words of any of the terms. -/
def unionPoints (ts : List Term) : Set ℕ := {x | ∃ t ∈ ts, x ∈ t.points}

variable (ord)

/-- **Minimising with don't-cares** always succeeds, and covers the minterms with nothing but
minterms and don't-cares. -/
theorem Simplify.apply_spec (minterms dontcares : List Term)
    (h : ∀ t ∈ minterms ++ dontcares, t.Ok w) :
    ∃ cover, Simplify.apply ord minterms dontcares w = some cover ∧
      IsCover w minterms (minterms ++ dontcares) (unionPoints (minterms ++ dontcares)) cover := by
  have hstart : Starts (Term.Good w (unionPoints (minterms ++ dontcares)))
      (minterms ++ dontcares) := fun t ht => ⟨h t ht, rfl, fun x hx => ⟨t, ht, hx⟩⟩
  have hprimes := collectPrimes_spec ord h hstart.grown
    (workOk ord hstart.grown (Term.merges_good.grown _))
  change Primes _ _ (getPrimeImplicants ord (minterms ++ dontcares) w) at hprimes
  have hcovered : Covered minterms (getPrimeImplicants ord (minterms ++ dontcares) w) :=
    fun m hm => hprimes.covers m (List.mem_append_left _ hm)
  obtain ⟨c, hc, hsub, hcov⟩ := exists_choice ord w hcovered
  refine ⟨_, ?_, IsCover.of_primes id hprimes hsub hcov⟩
  simp only [Simplify.apply, guard, if_pos (covered_any.mp hcovered), hc, Option.bind_eq_bind,
    Option.bind_some, Option.pure_def]
  rw [if_pos (covered_any.mp hcov)]
  rfl

/-- The choice among the primes is what the minimiser with explicit zeros returns, if it passes its
assertions. -/
theorem SimplifyDC.apply_eq {minterms maxterms c : List Term}
    {r : List Term × List Term × List Term}
    (hr : Simplify.getEssentialPrimeImplicants
      (getPrimeImplicants ord minterms maxterms w) minterms = r)
    (hc : Simplify.getCover ord r.2.1 r.2.2 w = some c)
    (hver : Verified (r.1 ++ c) minterms maxterms) :
    SimplifyDC.apply ord minterms maxterms w = some (r.1 ++ c) := by
  simp only [SimplifyDC.apply, guard, hr, hc, Option.bind_eq_bind, Option.bind_some,
    Option.pure_def]
  rw [if_pos hver]
  rfl

/-- **Minimising with explicit zeros** succeeds where no minterm meets a maxterm and `1L << i` deals
with the minterms, and covers the minterms without meeting any maxterm. -/
theorem SimplifyDC.apply_spec {minterms maxterms : List Term}
    (hlow : ∀ t ∈ minterms, t.Low w) (hmin : ∀ t ∈ minterms, t.Ok w)
    (hmax : ∀ t ∈ maxterms, t.Ok w)
    (hdisj : ∀ t ∈ minterms, ∀ u ∈ maxterms, u.intersects t = false) :
    ∃ cover, SimplifyDC.apply ord minterms maxterms w = some cover ∧
      IsCover w minterms minterms (allowed maxterms) cover := by
  have hstart : Starts (LowGood w maxterms) minterms := fun t ht =>
    ⟨⟨hmin t ht, rfl, points_subset_allowed hmax (hmin t ht) (hdisj t ht)⟩, hlow t ht⟩
  have hprimes := collectPrimes_spec ord hmin hstart.grown
    (workOk ord hstart.grown (merges_lowGood.grown _) ((grows_lowGood hmax).grown _))
  change Primes _ _ (getPrimeImplicants ord minterms maxterms w) at hprimes
  obtain ⟨c, hc, hsub, hcov⟩ := Simplify.exists_choice ord w hprimes.covers
  have hcover : IsCover w minterms minterms (allowed maxterms) _ :=
    IsCover.of_primes And.left hprimes hsub hcov
  refine ⟨_, apply_eq ord rfl hc ⟨Simplify.covered_any.mp hcov, fun t ht hany => ?_⟩, hcover⟩
  obtain ⟨p, hp, hmeet⟩ := List.any_eq_true.mp hany
  obtain ⟨x, hxp, hxt⟩ := (Term.intersects_iff (hcover.ok p hp) (hmax t ht)).mp hmeet
  exact hcover.allowed p hp hxp t ht hxt

/-- For any cubes over any number of variables `Simplify.apply` comes to an end, with terms that
cover every point of every minterm and no point outside the minterms and don't-cares. -/
theorem Simplify.sound_complete (minterms dontcares : List Term)
    (h : ∀ t ∈ minterms ++ dontcares, t.Ok w) :
    ∃ cover, Simplify.apply ord minterms dontcares w = some cover ∧
      (∀ m ∈ minterms, ∀ x ∈ m.points, ∃ p ∈ cover, x ∈ p.points) ∧
      ∀ p ∈ cover, ∀ x ∈ p.points, ∃ t ∈ minterms ++ dontcares, x ∈ t.points := by
  obtain ⟨cover, hcover, hspec⟩ := Simplify.apply_spec ord minterms dontcares h
  exact ⟨cover, hcover, hspec.minterms, fun p hp x hx => hspec.allowed p hp hx⟩

/-- The points `01` and `11`, with the don't-care `10`. -/
theorem Simplify.sound_complete_two : ∃ cover,
    Simplify.apply ⟨id, fun _ => .refl _⟩ [⟨1, 0⟩, ⟨3, 0⟩] [⟨2, 0⟩] 2 = some cover ∧
      (∀ m ∈ [(⟨1, 0⟩ : Term), ⟨3, 0⟩], ∀ x ∈ m.points, ∃ p ∈ cover, x ∈ p.points) ∧
      ∀ p ∈ cover, ∀ x ∈ p.points, ∃ t ∈ [(⟨1, 0⟩ : Term), ⟨3, 0⟩] ++ [⟨2, 0⟩], x ∈ t.points := by
  refine Simplify.sound_complete _ _ _ fun t ht => ?_
  simp only [List.cons_append, List.nil_append, List.mem_cons, List.not_mem_nil, or_false] at ht
  rcases ht with rfl | rfl | rfl <;> exact ⟨by decide, by decide, by decide, by decide, by decide⟩

end RiscvSoc
