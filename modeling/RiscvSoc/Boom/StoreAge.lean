import RiscvSoc.Boom.LSUForwardData
import RiscvSoc.Lib.RowRing

/-!
# The ages of stores

The store queue is a ring, and the load/store unit tells which of two stores is the older one in two
places: where a store address arrives and a load behind it has its data from another store, and in
`ForwardingAgeLogic`. Both go by index, with the tail as it was when the load was entered as the
reference. Here the stores are numbered as they are dispatched, and both are compared with the
numbers.

The first may ask about a store that has left the queue since the load was given its data. Its entry
may then belong to another store, and the index says something about the old one only because the
queue never fills up: `stq_full` keeps an entry free, so that the entry at the tail belongs to no
store that a load before it depends on.

## What the unit relies on

`DispatchOk` is what the data path and the reorder buffer promise: that dispatch heeds `stq_full`
and stops while something is squashed (`stall_me` in `dpath.scala`), that a load carries its own
index and is not entered over one that goes to memory in the same cycle, that stores commit from
the queue, and that a misprediction squashes what comes after the branch. The last is said of the
stores that are alive and of the loads that survive, so a late misprediction that meets a queue
just emptied by an exception is allowed.
-/

namespace RiscvSoc

open Function

variable {c : BOOMConf}

/-! ### Distances around a ring -/

section Ring

variable {n : ℕ} {h t y k f : Fin n}

theorem behind_lt (y k : Fin n) : behind y k < n := (k - y).isLt

theorem ne_of_behind_lt (hk : behind h k < behind h t) : k ≠ t := by
  rintro rfl
  exact hk.false

variable [NeZero n]

/-- The distance between two entries, from their distances to a third. -/
theorem behind_eq (h y k : Fin n) : behind y k =
    if behind h y ≤ behind h k then behind h k - behind h y
    else n + behind h k - behind h y := by
  have hsub : behind y k = behind (y - h) (k - h) := by
    rw [behind, behind, sub_sub_sub_cancel_right]
  rw [hsub]
  split
  · exact behind_of_le ‹_›
  · exact behind_of_lt (not_le.mp ‹_›)

theorem behind_succ (hlt : behind h t + 1 < n) : behind h (t + 1) = behind h t + 1 :=
  rowPlace_succ hlt

theorem behind_succ_head (hne : k ≠ h) : behind (h + 1) k = behind h k - 1 :=
  rowPlace_head_succ hne

theorem behind_pos (hne : k ≠ y) : 0 < behind y k :=
  Nat.pos_of_ne_zero fun hzero => hne (rowPlace_eq_zero.mp hzero)

/-- Entries before `t` are in the same order seen from `t`. -/
theorem behind_lt_behind_iff (hk : behind h k < behind h t) (hf : behind h f < behind h t) :
    behind t f < behind t k ↔ behind h f < behind h k := by
  have ht := behind_lt h t
  rw [behind_eq h t k, behind_eq h t f, if_neg (by omega), if_neg (by omega)]
  omega

/-- Whether `f` is nearer to `y` than `k` can be told from the distances to `k`. -/
theorem older_iff (hk : k ≠ y) (hf : f ≠ y) :
    f ≠ k ∧ behind k y < behind k f ↔ behind y f < behind y k := by
  have hkpos := behind_pos hk
  have hfpos := behind_pos hf
  have hself : behind y y = 0 := rowPlace_self y
  have hklt := behind_lt y k
  have hflt := behind_lt y f
  rw [behind_eq y k y, behind_eq y k f, hself, if_neg (by omega)]
  constructor
  · rintro ⟨-, hlt⟩
    split at hlt <;> omega
  · intro hlt
    refine ⟨fun heq => (heq ▸ hlt).false, ?_⟩
    rw [if_neg (by omega)]
    omega

end Ring

/-! ### The history -/

/-- Stores are numbered in the order of dispatch. -/
structure StoreAges (c : BOOMConf) where
  /-- How many stores there were. -/
  count : ℕ
  /-- The store in each entry of the store queue. -/
  number : Fin c.lsuEntries → ℕ
  /-- How many stores there were before each load. -/
  born : Fin c.lsuEntries → ℕ
  /-- The store that each load was last marked to take its data from. -/
  source : Fin c.lsuEntries → ℕ

namespace LSU

/-- A slot of the bundle is entered. -/
def agesSlot (g : StoreAges c) (e : Enq c) (d : DecSlot c) : StoreAges c :=
  let g := if d.ldVal then { g with born := update g.born e.ldEnqIdx g.count } else g
  if d.stVal then
    { g with number := update g.number e.stEnqIdx g.count, count := g.count + 1 }
  else g

/-- The rest of a bundle is entered. -/
def agesEnq (e : Enq c) (g : StoreAges c) : List (DecSlot c) → StoreAges c
  | [] => g
  | d :: l => agesEnq (e.slot d) (agesSlot g e d) l

/-- The history after a cycle. -/
def nextAges (s : LSU c) (i : LSUInput c) (g : StoreAges c) : StoreAges c :=
  { agesEnq (s.enqStart i) g i.dec with
    source := fun j => ((s.forwardedFrom i j).map g.number).getD (g.source j) }

/-- The unit and its history. -/
def agesMachine (c : BOOMConf) : Machine (LSU c × StoreAges c) (LSUInput c) :=
  (machine c).observe ⟨0, fun _ => 0, fun _ => 0, fun _ => 0⟩ nextAges

/-- The entries that the loads of the bundle get. -/
def enteredLoads (s : LSU c) (i : LSUInput c) : List (Fin c.lsuEntries) :=
  (takeFrom s.laqTail (i.dec.map (·.ldVal))).1

/-- What the rest of the core promises. -/
structure DispatchOk (s : LSU c) (i : LSUInput c) : Prop where
  width : i.dec.length ≤ c.decodeWidth
  /-- A store waits while the queue is full. -/
  notFull : ∀ d ∈ i.dec, d.stVal = true → s.stqFull = false
  /-- Nothing is dispatched while something is squashed. -/
  quiet : i.flush = true ∨ i.mispredict.isSome = true →
    ∀ d ∈ i.dec, d.ldVal = false ∧ d.stVal = false
  /-- A load carries the index of its entry. -/
  ldqIdx : (i.dec.filter (·.ldVal)).map (·.uop.ldqIdx) = s.enteredLoads i
  /-- No load is entered over one that goes to memory. -/
  apart : s.fireLoad i = true → (s.lUop i).ldqIdx ∉ s.enteredLoads i
  /-- A store that commits is in the queue. -/
  commits : ∀ k ∈ (s.committedStores i).1, behind s.stqHead k < behind s.stqHead s.stqTail
  /-- A store that survives a misprediction was dispatched before the branch. -/
  stores : ∀ b ∈ i.mispredict, ∀ k, s.liveStoreMask k = true →
    s.stBrKilled i k = false → behind s.stqHead k < behind s.stqHead b.stqIdx
  /-- So were the stores that a surviving load depends on. -/
  loads : ∀ b ∈ i.mispredict, ∀ j, (s.laq j).allocated = true →
    s.ldBrKilled i j = false → ∀ k, (s.laq j).stDepMask k = true →
      behind s.stqHead k < behind s.stqHead b.stqIdx

local instance : LawfulBEq (Fin c.lsuEntries) := inferInstance

instance (s : LSU c) (i : LSUInput c) : Decidable (DispatchOk s i) :=
  decidable_of_iff (i.dec.length ≤ c.decodeWidth ∧
    (∀ d ∈ i.dec, d.stVal = true → s.stqFull = false) ∧
    (i.flush = true ∨ i.mispredict.isSome = true →
      ∀ d ∈ i.dec, d.ldVal = false ∧ d.stVal = false) ∧
    (i.dec.filter (·.ldVal)).map (·.uop.ldqIdx) = s.enteredLoads i ∧
    (s.fireLoad i = true → (s.lUop i).ldqIdx ∉ s.enteredLoads i) ∧
    (∀ k ∈ (s.committedStores i).1, behind s.stqHead k < behind s.stqHead s.stqTail) ∧
    (∀ b ∈ i.mispredict, ∀ k, s.liveStoreMask k = true → s.stBrKilled i k = false →
      behind s.stqHead k < behind s.stqHead b.stqIdx) ∧
    ∀ b ∈ i.mispredict, ∀ j, (s.laq j).allocated = true → s.ldBrKilled i j = false →
      ∀ k, (s.laq j).stDepMask k = true → behind s.stqHead k < behind s.stqHead b.stqIdx)
    ⟨fun ⟨h₁, h₂, h₃, h₄, h₅, h₆, h₇, h₈⟩ => ⟨h₁, h₂, h₃, h₄, h₅, h₆, h₇, h₈⟩,
      fun ⟨h₁, h₂, h₃, h₄, h₅, h₆, h₇, h₈⟩ => ⟨h₁, h₂, h₃, h₄, h₅, h₆, h₇, h₈⟩⟩

/-! ### The two comparisons -/

/-- `(fid != stq_idx) && (Cat(yid < stq_idx, yid) < Cat(fid < stq_idx, fid))`, for the store at `k`
whose address arrives. -/
def comparesOlder (s : LSU c) (j k : Fin c.lsuEntries) : Bool :=
  let e := s.laq j
  decide (e.forwardedStqIdx ≠ k) && decide (catAge k e.yngStIdx < catAge k e.forwardedStqIdx)

theorem catAge_eq (base x : Fin c.lsuEntries) : catAge base x = base + behind base x := by
  rw [catAge]
  split
  · have hlt := base.isLt
    rw [behind_of_lt ‹_›]
    omega
  · have hle : base ≤ x := not_lt.mp ‹_›
    rw [behind_of_le hle]
    omega

theorem comparesOlder_iff {s : LSU c} {j k : Fin c.lsuEntries} (hk : k ≠ (s.laq j).yngStIdx)
    (hf : (s.laq j).forwardedStqIdx ≠ (s.laq j).yngStIdx) : s.comparesOlder j k = true ↔
      behind (s.laq j).yngStIdx (s.laq j).forwardedStqIdx < behind (s.laq j).yngStIdx k := by
  rw [comparesOlder, Bool.and_eq_true, decide_eq_true_iff, decide_eq_true_iff, catAge_eq,
    catAge_eq, Nat.add_lt_add_iff_left, older_iff hk hf]

/-- `matches`: the matches below the youngest store, above all matches. -/
def doubled (addrMatches : StMask c) (y : Fin c.lsuEntries) (x : ℕ) : Bool :=
  if hx : x < c.lsuEntries then addrMatches ⟨x, hx⟩
  else if hx : x - c.lsuEntries < c.lsuEntries then
    addrMatches ⟨x - c.lsuEntries, hx⟩ && decide (x - c.lsuEntries < y)
  else false

/-- The loop of `ForwardingAgeLogic`: the last match sticks. -/
def ageLogicLoop (addrMatches : StMask c) (y : Fin c.lsuEntries) : Option ℕ :=
  (List.range (2 * c.lsuEntries)).foldl (fun found x =>
    if doubled addrMatches y x then
      some (if c.lsuEntries ≤ x then x - c.lsuEntries else x)
    else found) none

/-- What the comparisons are to say about load `j`, when it is in the queue. -/
structure AgesRight (s : LSU c) (g : StoreAges c) (j : Fin c.lsuEntries) : Prop where
  /-- The stores it depends on are older. -/
  older : ∀ k, (s.laq j).stDepMask k = true → g.number k < g.born j
  /-- Of an arriving store the check finds out whether it is younger than the one the load has its
  data from. -/
  compares : (s.laq j).forwardedStdVal = true → ∀ k, (s.laq j).stDepMask k = true →
    (s.comparesOlder j k = true ↔ g.source j < g.number k)
  /-- Of any matches there are, the age logic finds the youngest. -/
  selects : ∀ m : StMask c, (∀ k, m k = true → (s.laq j).stDepMask k = true) →
    match forwardingAgeLogic m (s.laq j).yngStIdx with
    | none => ∀ k, m k = false
    | some k => m k = true ∧ ∀ k', m k' = true → k' ≠ k → g.number k' < g.number k

/-! ### The doubled vector -/

theorem foldl_last (n : ℕ) (f : Fin n → Bool) (found : Option ℕ) :
    (List.finRange n).foldl (fun found x => if f x then some x.val else found) found =
      ((lastEncoder f).map Fin.val).or found := by
  rw [lastEncoder, ← List.foldr_reverse]
  induction (List.finRange n).reverse with
  | nil => rfl
  | cons x l ih =>
    rw [List.foldr_cons, List.find?_cons, ih]
    cases f x <;> rfl

theorem forwardingAgeLogic_eq_loop (m : StMask c) (y : Fin c.lsuEntries) :
    ageLogicLoop m y = (forwardingAgeLogic m y).map Fin.val := by
  have hlow (x : Fin c.lsuEntries) : doubled m y x = m x := by rw [doubled, dif_pos x.isLt]
  have hhigh (x : Fin c.lsuEntries) :
      doubled m y (c.lsuEntries + x) = (m x && decide (x < y)) := by
    rw [doubled, dif_neg (by omega), dif_pos (by omega)]
    simp only [Nat.add_sub_cancel_left]
    rfl
  have hsplit : List.range (2 * c.lsuEntries) =
      (List.finRange c.lsuEntries).map Fin.val ++
        ((List.finRange c.lsuEntries).map Fin.val).map (c.lsuEntries + ·) := by
    rw [two_mul, List.range_add, List.map_coe_finRange_eq_range]
  rw [ageLogicLoop, hsplit, List.foldl_append, List.map_map, List.foldl_map, List.foldl_map]
  simp only [comp_apply, hlow, hhigh, not_le.mpr (Fin.isLt _), if_false,
    Nat.le_add_right, if_true, Nat.add_sub_cancel_left]
  rw [foldl_last, foldl_last, forwardingAgeLogic]
  cases lastEncoder fun x => m x && decide (x < y) <;> cases lastEncoder m <;> rfl

/-! ### The invariant -/

/-- A load in a queue from `h` to `t`: the stores it depends on are in the queue, older than itself
and in the order of their distances from its own place; the one it has its data from fits in. -/
structure LoadAges (h t : Fin c.lsuEntries) (e : LAQEntry c) (number : Fin c.lsuEntries → ℕ)
    (born source : ℕ) : Prop where
  window : ∀ k, e.stDepMask k = true → behind h k < behind h t
  young : ∀ k, e.stDepMask k = true → k ≠ e.yngStIdx
  order : ∀ k k', e.stDepMask k = true → e.stDepMask k' = true →
    behind e.yngStIdx k < behind e.yngStIdx k' → number k < number k'
  older : ∀ k, e.stDepMask k = true → number k < born
  sourceYoung : e.forwardedStdVal = true → e.forwardedStqIdx ≠ e.yngStIdx
  source : e.forwardedStdVal = true → ∀ k, e.stDepMask k = true →
    (behind e.yngStIdx e.forwardedStqIdx < behind e.yngStIdx k ↔ source < number k)

/-- The queues while stores are alive from `h` to `t`. -/
structure QueueAges (h t : Fin c.lsuEntries) (live : StMask c) (laq : Fin c.lsuEntries → LAQEntry c)
    (g : StoreAges c) : Prop where
  window : ∀ k, live k = true → behind h k < behind h t
  order : ∀ k k', live k = true → live k' = true → behind h k < behind h k' →
    g.number k < g.number k'
  below : ∀ k, live k = true → g.number k < g.count
  loads : ∀ j, (laq j).allocated = true → LoadAges h t (laq j) g.number (g.born j) (g.source j)
  ldqIdx : ∀ j, (laq j).allocated = true → (laq j).uop.ldqIdx = j

/-- The queues and what the head of the store queue goes by. -/
structure AgesInv (x : LSU c × StoreAges c) : Prop where
  queue : QueueAges x.1.stqHead x.1.stqTail x.1.liveStoreMask x.1.laq x.2
  entry : ∀ k, (x.1.stq k).entryVal = true → x.1.liveStoreMask k = true
  committed : ∀ k, x.1.liveStoreMask k = true → (x.1.stq k).committed = true →
    behind x.1.stqHead k < behind x.1.stqHead x.1.stqCommitHead

theorem LoadAges.right {s : LSU c} {g : StoreAges c} {h t j : Fin c.lsuEntries}
    (ha : LoadAges h t (s.laq j) g.number (g.born j) (g.source j)) : AgesRight s g j where
  older := ha.older
  compares hf k hk := by
    rw [comparesOlder_iff (ha.young k hk) (ha.sourceYoung hf)]
    exact ha.source hf k hk
  selects m hm := by
    split
    · rename_i hnone
      rw [forwardingAgeLogic, Option.orElse_eq_none] at hnone
      exact lastEncoder_eq_none.mp hnone.2
    · rename_i k hsome
      obtain ⟨hk, hlast⟩ := forwardingAgeLogic_spec hsome
      refine ⟨hk, fun k' hk' hne => ha.order k' k (hm k' hk') (hm k hk) ?_⟩
      refine lt_of_le_of_ne (not_lt.mp fun hlt => ?_) fun heq => hne (rowPlace_inj heq)
      rw [hlast k' hlt] at hk'
      exact Bool.false_ne_true hk'

/-- A load keeps its place when it comes to depend on fewer stores. -/
theorem LoadAges.mono {h t h' t' : Fin c.lsuEntries} {e e' : LAQEntry c}
    {number number' : Fin c.lsuEntries → ℕ} {born source : ℕ}
    (ha : LoadAges h t e number born source) (hy : e'.yngStIdx = e.yngStIdx)
    (hval : e'.forwardedStdVal = e.forwardedStdVal)
    (hidx : e'.forwardedStqIdx = e.forwardedStqIdx)
    (hdep : ∀ k, e'.stDepMask k = true →
      e.stDepMask k = true ∧ behind h' k < behind h' t' ∧ number' k = number k) :
    LoadAges h' t' e' number' born source where
  window k hk := (hdep k hk).2.1
  young k hk := hy ▸ ha.young k (hdep k hk).1
  order k k' hk hk' hlt := by
    rw [(hdep k hk).2.2, (hdep k' hk').2.2]
    rw [hy] at hlt
    exact ha.order k k' (hdep k hk).1 (hdep k' hk').1 hlt
  older k hk := by
    rw [(hdep k hk).2.2]
    exact ha.older k (hdep k hk).1
  sourceYoung hf := by
    rw [hval] at hf
    rw [hidx, hy]
    exact ha.sourceYoung hf
  source hf k hk := by
    rw [hval] at hf
    rw [hidx, hy, (hdep k hk).2.2]
    exact ha.source hf k (hdep k hk).1

/-! ### Dispatch -/

section Dispatch

variable {h : Fin c.lsuEntries} {e : Enq c} {g : StoreAges c}

section

variable (hq : QueueAges h e.stEnqIdx e.nextLiveStoreMask e.laq g)
include hq

theorem QueueAges.load {u : MicroOp c}
    (hu : u.ldqIdx = e.ldEnqIdx) : QueueAges h e.stEnqIdx e.nextLiveStoreMask (e.load u).laq
      { g with born := update g.born e.ldEnqIdx g.count } where
  window := hq.window
  order := hq.order
  below := hq.below
  loads j hj := by
    by_cases hne : j = e.ldEnqIdx
    · subst hne
      simp only [Enq.load, update_self]
      refine ⟨hq.window, fun k hk => ne_of_behind_lt (hq.window k hk), fun k k' hk hk' hlt => ?_,
        hq.below, fun hf => absurd hf Bool.false_ne_true, fun hf => absurd hf Bool.false_ne_true⟩
      exact hq.order k k' hk hk' ((behind_lt_behind_iff (hq.window k' hk') (hq.window k hk)).1 hlt)
    · simp only [Enq.load, update_of_ne hne] at hj ⊢
      exact hq.loads j hj
  ldqIdx j hj := by
    by_cases hne : j = e.ldEnqIdx
    · subst hne
      simp only [Enq.load, update_self]
      exact hu
    · simp only [Enq.load, update_of_ne hne] at hj ⊢
      exact hq.ldqIdx j hj

theorem QueueAges.store (u : MicroOp c) (hroom : behind h e.stEnqIdx + 1 < c.lsuEntries) :
    QueueAges h (e.store u).stEnqIdx (e.store u).nextLiveStoreMask (e.store u).laq
      { g with number := update g.number e.stEnqIdx g.count, count := g.count + 1 } := by
  have hsucc : behind h (e.store u).stEnqIdx = behind h e.stEnqIdx + 1 := behind_succ hroom
  have hnumber {k : Fin c.lsuEntries} (hk : behind h k < behind h e.stEnqIdx) :
      update g.number e.stEnqIdx g.count k = g.number k :=
    update_of_ne (ne_of_behind_lt hk) _ _
  have hlive {k : Fin c.lsuEntries} (hk : (e.store u).nextLiveStoreMask k = true) :
      k = e.stEnqIdx ∨ e.nextLiveStoreMask k = true := by
    by_cases hne : k = e.stEnqIdx
    · exact .inl hne
    · exact .inr (by simpa only [Enq.store, update_of_ne hne] using hk)
  refine ⟨fun k hk => ?_, fun k k' hk hk' hlt => ?_, fun k hk => ?_, fun j hj => ?_, hq.ldqIdx⟩
  · rcases hlive hk with rfl | hk
    · omega
    · exact hsucc ▸ Nat.lt_succ_of_lt (hq.window k hk)
  · rcases hlive hk with rfl | hk
    · -- nothing alive is behind the new store
      rcases hlive hk' with rfl | hk'
      · exact absurd hlt (lt_irrefl _)
      · exact absurd (hq.window k' hk') hlt.asymm
    · change update g.number _ _ k < update g.number _ _ k'
      rw [hnumber (hq.window k hk)]
      rcases hlive hk' with rfl | hk'
      · rw [update_self]
        exact hq.below k hk
      · rw [hnumber (hq.window k' hk')]
        exact hq.order k k' hk hk' hlt
  · change update g.number _ _ k < g.count + 1
    rcases hlive hk with rfl | hk
    · rw [update_self]
      exact Nat.lt_succ_self _
    · exact (hnumber (hq.window k hk)).trans_lt (Nat.lt_succ_of_lt (hq.below k hk))
  · have ha := hq.loads j hj
    exact ha.mono rfl rfl rfl fun k hk =>
      ⟨hk, hsucc ▸ Nat.lt_succ_of_lt (ha.window k hk), hnumber (ha.window k hk)⟩

theorem QueueAges.slot {d : DecSlot c} (hld : d.ldVal = true → d.uop.ldqIdx = e.ldEnqIdx)
    (hroom : d.stVal = true → behind h e.stEnqIdx + 1 < c.lsuEntries) :
    QueueAges h (e.slot d).stEnqIdx (e.slot d).nextLiveStoreMask (e.slot d).laq (agesSlot g e d) ∧
      behind h (e.slot d).stEnqIdx = behind h e.stEnqIdx + d.stVal.toNat ∧
      ∀ k, behind h k < behind h e.stEnqIdx → (agesSlot g e d).number k = g.number k := by
  rw [Enq.slot, agesSlot]
  cases hl : d.ldVal <;> cases hs : d.stVal <;>
    simp only [Bool.false_eq_true, if_false, if_true]
  · exact ⟨hq, rfl, fun _ _ => trivial⟩
  · exact ⟨hq.store d.uop (hroom hs), behind_succ (hroom hs),
      fun k hk => update_of_ne (ne_of_behind_lt hk) _ _⟩
  · exact ⟨hq.load (hld hl), rfl, fun _ _ => trivial⟩
  · have hload := hq.load (hld hl)
    exact ⟨hload.store (e := e.load d.uop) d.uop (hroom hs), behind_succ (hroom hs),
      fun k hk => update_of_ne (ne_of_behind_lt hk) _ _⟩

end

variable (l : List (DecSlot c))

/-- A bundle is entered. The numbers of the stores before it stay. -/
theorem QueueAges.enq {e : Enq c} {g : StoreAges c}
    (hq : QueueAges h e.stEnqIdx e.nextLiveStoreMask e.laq g)
    (hld : (l.filter (·.ldVal)).map (·.uop.ldqIdx) = (takeFrom e.ldEnqIdx (l.map (·.ldVal))).1)
    (hroom : ∀ d ∈ l, d.stVal = true → behind h e.stEnqIdx + l.length < c.lsuEntries) :
    QueueAges h (l.foldl Enq.slot e).stEnqIdx (l.foldl Enq.slot e).nextLiveStoreMask
        (l.foldl Enq.slot e).laq (agesEnq e g l) ∧
      ∀ k, behind h k < behind h e.stEnqIdx → (agesEnq e g l).number k = g.number k := by
  induction l generalizing e g with
  | nil => exact ⟨hq, fun _ _ => rfl⟩
  | cons d l ih =>
    rw [List.length_cons] at hroom
    have hfirst : (d.ldVal = true → d.uop.ldqIdx = e.ldEnqIdx) ∧
        (l.filter (·.ldVal)).map (·.uop.ldqIdx) =
          (takeFrom (e.slot d).ldEnqIdx (l.map (·.ldVal))).1 := by
      rw [List.filter_cons, List.map_cons] at hld
      cases hl : d.ldVal with
      | false =>
        rw [hl, if_neg (by simp), takeFrom] at hld
        have henq : (e.slot d).ldEnqIdx = e.ldEnqIdx := by
          rw [Enq.slot, hl]
          cases d.stVal <;> rfl
        exact ⟨fun h => absurd h Bool.false_ne_true, henq ▸ hld⟩
      | true =>
        rw [hl, if_pos rfl, takeFrom, List.map_cons] at hld
        obtain ⟨hhead, htail⟩ := List.cons.inj hld
        have henq : (e.slot d).ldEnqIdx = e.ldEnqIdx + 1 := by
          rw [Enq.slot, hl]
          cases d.stVal <;> rfl
        exact ⟨fun _ => hhead, henq ▸ htail⟩
    obtain ⟨hslot, hbehind, hkept⟩ := hq.slot hfirst.1 fun hs => by
      have := hroom d List.mem_cons_self hs
      omega
    have hle := Bool.toNat_le d.stVal
    obtain ⟨hrest, hnumber⟩ := ih hslot hfirst.2 fun d' hd' hs => by
      have := hroom d' (List.mem_cons_of_mem d hd') hs
      omega
    exact ⟨hrest, fun k hk => (hnumber k (by omega)).trans (hkept k hk)⟩

theorem source_agesEnq (e : Enq c) (g : StoreAges c) :
    (agesEnq e g l).source = g.source := by
  induction l generalizing e g with
  | nil => rfl
  | cons d l ih =>
    rw [agesEnq, ih, agesSlot]
    cases d.ldVal <;> cases d.stVal <;> rfl

theorem laq_foldl_slot {e : Enq c} {j : Fin c.lsuEntries}
    (hj : j ∉ (takeFrom e.ldEnqIdx (l.map (·.ldVal))).1) :
      (l.foldl Enq.slot e).laq j = e.laq j := by
  induction l generalizing e with
  | nil => rfl
  | cons d l ih =>
    rw [List.map_cons] at hj
    rw [List.foldl_cons]
    cases hl : d.ldVal with
    | false =>
      rw [hl, takeFrom] at hj
      have henq : (e.slot d).ldEnqIdx = e.ldEnqIdx ∧ (e.slot d).laq = e.laq := by
        rw [Enq.slot, hl]
        cases d.stVal <;> exact ⟨rfl, rfl⟩
      rw [ih (henq.1.symm ▸ hj), henq.2]
    | true =>
      rw [hl, takeFrom, List.mem_cons, not_or] at hj
      have henq : (e.slot d).ldEnqIdx = e.ldEnqIdx + 1 ∧ (e.slot d).laq = (e.load d.uop).laq := by
        rw [Enq.slot, hl]
        cases d.stVal <;> exact ⟨rfl, rfl⟩
      rw [ih (henq.1.symm ▸ hj.2), henq.2]
      exact update_of_ne hj.1 _ _

theorem foldl_slot_of_quiet {l : List (DecSlot c)} (e : Enq c)
    (hl : ∀ d ∈ l, d.ldVal = false ∧ d.stVal = false) : l.foldl Enq.slot e = e := by
  induction l with
  | nil => rfl
  | cons d l ih =>
    obtain ⟨hld, hst⟩ := hl d List.mem_cons_self
    have hslot : e.slot d = e := by
      rw [Enq.slot, hld, hst]
      rfl
    rw [List.foldl_cons, hslot]
    exact ih fun d' hd' => hl d' (List.mem_cons_of_mem d hd')

/-- What an entry of the store queue has after the bundle: a new store has nothing yet. -/
theorem foldl_slot_stq (e : Enq c) (k : Fin c.lsuEntries) :
    (((l.foldl Enq.slot e).stq k).entryVal = true →
      (l.foldl Enq.slot e).nextLiveStoreMask k = true ∨ (e.stq k).entryVal = true ∧
        (l.foldl Enq.slot e).nextLiveStoreMask k = e.nextLiveStoreMask k) ∧
      (((l.foldl Enq.slot e).stq k).committed = true → (e.stq k).committed = true ∧
        (l.foldl Enq.slot e).nextLiveStoreMask k = e.nextLiveStoreMask k) := by
  refine List.foldlRecOn (motive := fun e' : Enq c => ((e'.stq k).entryVal = true →
    e'.nextLiveStoreMask k = true ∨ (e.stq k).entryVal = true ∧
      e'.nextLiveStoreMask k = e.nextLiveStoreMask k) ∧
    ((e'.stq k).committed = true → (e.stq k).committed = true ∧
      e'.nextLiveStoreMask k = e.nextLiveStoreMask k)) _ _
    ⟨fun h => .inr ⟨h, rfl⟩, fun h => ⟨h, rfl⟩⟩ fun e' he' d _ => ?_
  have hload : (if d.ldVal then e'.load d.uop else e').stq = e'.stq ∧
      (if d.ldVal then e'.load d.uop else e').nextLiveStoreMask = e'.nextLiveStoreMask := by
    split <;> exact ⟨rfl, rfl⟩
  rw [← hload.1, ← hload.2] at he'
  rw [Enq.slot]
  split
  · generalize (if d.ldVal then e'.load d.uop else e') = e₁ at he' ⊢
    by_cases hk : k = e₁.stEnqIdx
    · subst hk
      simp [Enq.store]
    · simpa [Enq.store, hk] using he'
  · exact he'

end Dispatch

/-! ### One cycle -/

section Step

variable {s : LSU c} {i : LSUInput c} {g : StoreAges c}

/-- The order of the entries from the head does not change when the head moves on. -/
theorem behind_nextHead {k t : Fin c.lsuEntries} (hk : s.clearStore i = true → k ≠ s.stqHead)
    (hlt : behind s.stqHead k < behind s.stqHead t) :
    behind (s.next i).stqHead k < behind (s.next i).stqHead t := by
  change behind (if s.clearStore i then s.stqHead + 1 else s.stqHead) k <
    behind (if s.clearStore i then s.stqHead + 1 else s.stqHead) t
  split
  · have hne := hk ‹_›
    have ht : t ≠ s.stqHead := by
      rintro rfl
      rw [show behind s.stqHead s.stqHead = 0 from rowPlace_self _] at hlt
      exact Nat.not_lt_zero _ hlt
    have hpos := behind_pos hne
    rw [behind_succ_head hne, behind_succ_head ht]
    omega
  · exact hlt

theorem behind_of_nextHead {k t : Fin c.lsuEntries} (ht : s.clearStore i = true → t ≠ s.stqHead)
    (hlt : behind (s.next i).stqHead k < behind (s.next i).stqHead t) :
    behind s.stqHead k < behind s.stqHead t := by
  by_contra hge
  rcases (not_lt.mp hge).lt_or_eq with hgt | heq
  · exact hlt.asymm (behind_nextHead ht hgt)
  · rw [show t = k from rowPlace_inj heq] at hlt
    exact hlt.false

variable {k : Fin c.lsuEntries} {j : Fin c.lsuEntries}

theorem live_enqStart (hk : (s.enqStart i).nextLiveStoreMask k = true) :
    s.liveStoreMask k = true ∧ (s.clearStore i = true → k ≠ s.stqHead) := by
  simp only [enqStart] at hk
  split at hk
  · by_cases hne : k = s.stqHead
    · subst hne
      rw [update_self] at hk
      exact absurd hk Bool.false_ne_true
    · rw [update_of_ne hne] at hk
      exact ⟨hk, fun _ => hne⟩
  · exact ⟨hk, fun h => absurd h ‹_›⟩

theorem stDepMask_enqStart {j k : Fin c.lsuEntries}
    (hk : ((s.enqStart i).laq j).stDepMask k = true) :
    (s.laq j).stDepMask k = true ∧ (s.clearStore i = true → k ≠ s.stqHead) := by
  simp only [enqStart] at hk
  split at hk
  · by_cases hne : k = s.stqHead
    · subst hne
      simp at hk
    · change update (s.laq j).stDepMask s.stqHead false k = true at hk
      rw [update_of_ne hne] at hk
      exact ⟨hk, fun _ => hne⟩
  · exact ⟨hk, fun h => absurd h ‹_›⟩

theorem AgesInv.start (h : AgesInv (s, g)) : QueueAges (s.next i).stqHead s.stqTail
    (s.enqStart i).nextLiveStoreMask (s.enqStart i).laq g := by
  have hq := h.queue
  have hlaq (j : Fin c.lsuEntries) : ((s.enqStart i).laq j).allocated = (s.laq j).allocated ∧
      ((s.enqStart i).laq j).yngStIdx = (s.laq j).yngStIdx ∧
      ((s.enqStart i).laq j).forwardedStdVal = (s.laq j).forwardedStdVal ∧
      ((s.enqStart i).laq j).forwardedStqIdx = (s.laq j).forwardedStqIdx ∧
      ((s.enqStart i).laq j).uop = (s.laq j).uop := by
    simp only [enqStart]
    split <;> exact ⟨rfl, rfl, rfl, rfl, rfl⟩
  refine ⟨fun k hk => ?_, fun k k' hk hk' hlt => ?_, fun k hk => hq.below k (live_enqStart hk).1,
    fun j hj => ?_, fun j hj => ?_⟩
  · exact behind_nextHead (live_enqStart hk).2 (hq.window k (live_enqStart hk).1)
  · exact hq.order k k' (live_enqStart hk).1 (live_enqStart hk').1
      (behind_of_nextHead (live_enqStart hk').2 hlt)
  · obtain ⟨halloc, hy, hval, hidx, -⟩ := hlaq j
    have ha := hq.loads j (halloc ▸ hj)
    exact ha.mono hy hval hidx fun k hk => ⟨(stDepMask_enqStart hk).1,
      behind_nextHead (stDepMask_enqStart hk).2 (ha.window k (stDepMask_enqStart hk).1), rfl⟩
  · rw [(hlaq j).2.2.2.2]
    exact hq.ldqIdx j ((hlaq j).1 ▸ hj)

theorem behind_stqTail_add (hfull : s.stqFull = false) {w : ℕ} (hw : w ≤ c.decodeWidth) :
    behind s.stqHead s.stqTail + w < c.lsuEntries := by
  have hfree (v : Fin c.decodeWidth) : s.stqTail + Fin.ofNat _ (v + 1) ≠ s.stqHead := by
    intro heq
    have hup : s.stqFull = true := orR_eq_true.mpr ⟨v, decide_eq_true heq⟩
    rw [hfull] at hup
    exact Bool.false_ne_true hup
  have hplace : behind s.stqHead (s.stqTail + Fin.ofNat _ w) = behind s.stqHead s.stqTail + w := by
    induction w with
    | zero => simp
    | succ w ih =>
      have hne := hfree ⟨w, hw⟩
      rw [ofNat_succ, ← add_assoc] at hne ⊢
      rw [behind_succ (rowPlace_succ_lt hne), ih (Nat.le_of_succ_le hw), Nat.add_assoc]
  rw [← hplace]
  exact behind_lt _ _

theorem AgesInv.enq (h : AgesInv (s, g)) (hok : DispatchOk s i) :
    QueueAges (s.next i).stqHead (s.enq i).stEnqIdx (s.enq i).nextLiveStoreMask (s.enq i).laq
        (agesEnq (s.enqStart i) g i.dec) ∧
      ∀ k, behind (s.next i).stqHead k < behind (s.next i).stqHead s.stqTail →
        (agesEnq (s.enqStart i) g i.dec).number k = g.number k := by
  refine QueueAges.enq i.dec h.start hok.ldqIdx fun d hd hst => ?_
  have hroom := behind_stqTail_add (hok.notFull d hd hst) hok.width
  have hle : behind (s.next i).stqHead s.stqTail ≤ behind s.stqHead s.stqTail := by
    change behind (if s.clearStore i then s.stqHead + 1 else s.stqHead) _ ≤ _
    split
    · -- the store that leaves was in the queue
      rename_i hclear
      have hentry : (s.stq s.stqHead).entryVal = true := by
        simp only [clearStore, Bool.and_eq_true] at hclear
        exact hclear.1.1
      have hne := ne_of_behind_lt (h.queue.window _ (h.entry _ hentry))
      rw [behind_succ_head (Ne.symm hne)]
      exact Nat.sub_le _ _
    · exact le_rfl
  change behind (s.next i).stqHead s.stqTail + i.dec.length < _
  omega

/-- A load that is marked to take its data from a store depends on it. -/
theorem AgesInv.of_forwardedFrom (h : AgesInv (s, g)) {j k : Fin c.lsuEntries}
    (hf : s.forwardedFrom i j = some k) :
    s.fireLoad i = true ∧ (s.lUop i).ldqIdx = j ∧ (s.laq j).stDepMask k = true := by
  rw [forwardedFrom] at hf
  split at hf
  · rename_i hfire
    simp only [Bool.and_eq_true, decide_eq_true_iff] at hfire
    obtain ⟨⟨hfire, -⟩, hidx⟩ := hfire
    have hmatch := (overlap_of_forwardingMatches (forwardingAgeLogic_spec hf).1).1
    have hdep := (dwordAddrMatches_iff.mp hmatch).1
    rw [stDep, Bool.and_eq_true] at hdep
    refine ⟨hfire, hidx, ?_⟩
    have hiss : s.ldIssIdx i = j := by
      rw [← hidx, ldIssIdx, lUop]
      cases hresp : i.loadResp with
      | some r => rfl
      | none =>
        have hsleep : s.reqFireLoadSleeper = true := by
          simpa [fireLoad, reqFireLoadFast, hresp] using hfire
        simp only [reqFireLoadSleeper, Bool.and_eq_true] at hsleep
        exact (h.queue.ldqIdx _ hsleep.1.1.2).symm
    exact hiss ▸ hdep.2
  · cases hf

theorem allocated_next (hj : ((s.next i).laq j).allocated = true) :
    i.flush = false ∧ j ∉ (s.committedLoads i).1 ∧ s.ldBrKilled i j = false ∧
      ((s.enq i).laq j).allocated = true := by
  change (s.nextLaq i j).allocated = true at hj
  simp only [nextLaq] at hj
  split at hj
  · exact absurd hj Bool.false_ne_true
  · split at hj
    · exact absurd hj Bool.false_ne_true
    · split at hj
      · exact absurd hj Bool.false_ne_true
      · simp_all

theorem liveStoreMask_next (hk : (s.next i).liveStoreMask k = true) :
    (s.enq i).nextLiveStoreMask k = true ∧ s.stBrKilled i k = false ∧
      (i.flush = true → (s.stq k).committed = true) := by
  change ((s.enq i).nextLiveStoreMask k && !s.stBrKilled i k && !s.stExcKilled i k) = true at hk
  simp only [Bool.and_eq_true, Bool.not_eq_true', stExcKilled] at hk
  refine ⟨hk.1.1, hk.1.2, fun hflush => ?_⟩
  simpa [hflush] using hk.2

theorem enq_of_quiet (hok : DispatchOk s i)
    (hquiet : i.flush = true ∨ i.mispredict.isSome = true) : s.enq i = s.enqStart i :=
  foldl_slot_of_quiet _ (hok.quiet hquiet)

theorem behind_stqTail_next
    (henq : behind (s.next i).stqHead k < behind (s.next i).stqHead (s.enq i).stEnqIdx)
    (hflush : i.flush = true →
      behind (s.next i).stqHead k < behind (s.next i).stqHead s.stqCommitHead)
    (hmis : ∀ b, i.mispredict = some b →
      behind (s.next i).stqHead k < behind (s.next i).stqHead b.stqIdx) :
    behind (s.next i).stqHead k < behind (s.next i).stqHead (s.next i).stqTail := by
  have htail : (s.next i).stqTail = if i.flush then s.stqCommitHead else _ := rfl
  rw [htail]
  split
  · exact hflush ‹_›
  · cases hb : i.mispredict with
    | some b => exact hmis b hb
    | none => exact henq

theorem AgesInv.window_next (h : AgesInv (s, g)) (hok : DispatchOk s i)
    (hk : (s.next i).liveStoreMask k = true) :
    behind (s.next i).stqHead k < behind (s.next i).stqHead (s.next i).stqTail := by
  obtain ⟨hlive, hkill, hcommitted⟩ := liveStoreMask_next hk
  refine behind_stqTail_next ((h.enq hok).1.window k hlive) (fun hflush => ?_) fun b hb => ?_
  · rw [enq_of_quiet hok (.inl hflush)] at hlive
    exact behind_nextHead (live_enqStart hlive).2
      (h.committed k (live_enqStart hlive).1 (hcommitted hflush))
  · rw [enq_of_quiet hok (.inr (by rw [hb]; rfl))] at hlive
    exact behind_nextHead (live_enqStart hlive).2
      (hok.stores b hb k (live_enqStart hlive).1 hkill)

theorem AgesInv.dep_next (h : AgesInv (s, g)) (hok : DispatchOk s i) {j k : Fin c.lsuEntries}
    (hj : ((s.next i).laq j).allocated = true) (hk : ((s.enq i).laq j).stDepMask k = true) :
    behind (s.next i).stqHead k < behind (s.next i).stqHead (s.next i).stqTail := by
  obtain ⟨hflush, -, hkill, halloc⟩ := allocated_next hj
  refine behind_stqTail_next (((h.enq hok).1.loads j halloc).window k hk)
    (fun h => absurd (hflush.symm.trans h) Bool.false_ne_true) fun b hb => ?_
  rw [enq_of_quiet hok (.inr (by rw [hb]; rfl))] at hk halloc
  have hold : (s.laq j).allocated = true := by
    simp only [enqStart] at halloc
    split at halloc <;> exact halloc
  exact behind_nextHead (stDepMask_enqStart hk).2
    (hok.loads b hb j hold hkill k (stDepMask_enqStart hk).1)

theorem AgesInv.loads_next (h : AgesInv (s, g)) (hok : DispatchOk s i)
    (hj : ((s.next i).laq j).allocated = true) :
    LoadAges (s.next i).stqHead (s.next i).stqTail ((s.next i).laq j) (nextAges s i g).number
      ((nextAges s i g).born j) ((nextAges s i g).source j) := by
  obtain ⟨hflush, hcommitted, hkill, halloc⟩ := allocated_next hj
  obtain ⟨hq, hnumber⟩ := h.enq hok
  have ha := hq.loads j halloc
  rw [source_agesEnq] at ha
  have hsource : (nextAges s i g).source j =
      ((s.forwardedFrom i j).map g.number).getD (g.source j) := rfl
  have hval : ((s.next i).laq j).forwardedStdVal =
      if (s.forwardedFrom i j).isSome then true else ((s.enq i).laq j).forwardedStdVal := by
    change (if decide (j ∈ (s.committedLoads i).1) then false else _) = _
    rw [decide_eq_false hcommitted, if_neg (by simp)]
  have hidx : ((s.next i).laq j).forwardedStqIdx =
      (s.forwardedFrom i j).getD ((s.enq i).laq j).forwardedStqIdx := rfl
  rw [hsource]
  cases hf : s.forwardedFrom i j with
  | none =>
    rw [hf] at hval hidx
    exact ha.mono rfl hval hidx fun k hk => ⟨hk, h.dep_next hok hj hk, rfl⟩
  | some f =>
    rw [hf] at hval hidx
    obtain ⟨hfire, hload, hdep⟩ := h.of_forwardedFrom hf
    -- the load was in the queue before the cycle
    have hlaq : (s.enq i).laq j = (s.enqStart i).laq j :=
      laq_foldl_slot i.dec (hload ▸ hok.apart hfire)
    have hyng : ((s.enqStart i).laq j).yngStIdx = (s.laq j).yngStIdx ∧
        ((s.enqStart i).laq j).allocated = (s.laq j).allocated := by
      simp only [enqStart]
      split <;> exact ⟨rfl, rfl⟩
    have hold := h.queue.loads j (hyng.2 ▸ hlaq ▸ halloc)
    have hyng' : ((s.next i).laq j).yngStIdx = (s.laq j).yngStIdx := by
      change ((s.enq i).laq j).yngStIdx = _
      rw [hlaq, hyng.1]
    refine ⟨fun k hk => h.dep_next hok hj hk, ha.young, ha.order, ha.older, fun _ => ?_,
      fun _ k hk => ?_⟩
    · rw [hidx, hyng']
      exact hold.young f hdep
    · change ((s.enq i).laq j).stDepMask k = true at hk
      have hkept : (nextAges s i g).number k = g.number k :=
        hnumber k (behind_nextHead (stDepMask_enqStart (hlaq ▸ hk)).2
          (hold.window k (stDepMask_enqStart (hlaq ▸ hk)).1))
      rw [hidx, hyng', hkept]
      have hk := (stDepMask_enqStart (hlaq ▸ hk)).1
      refine ⟨hold.order f k hdep hk, fun hlt => ?_⟩
      by_contra hge
      rcases (not_lt.mp hge).lt_or_eq with hgt | heq
      · exact hlt.asymm (hold.order k f hk hdep hgt)
      · rw [show k = f from rowPlace_inj heq] at hlt
        exact hlt.false

/-- The entries a commit takes from the queue are before the head it leaves. -/
theorem behind_takeFrom {h t : Fin c.lsuEntries} (l : List Bool) {x : Fin c.lsuEntries}
    (hl : ∀ k ∈ (takeFrom x l).1, behind h k < behind h t) :
    behind h x ≤ behind h (takeFrom x l).2 ∧
      ∀ k ∈ (takeFrom x l).1, behind h k < behind h (takeFrom x l).2 := by
  induction l generalizing x with
  | nil => exact ⟨le_rfl, fun k hk => absurd hk List.not_mem_nil⟩
  | cons b l ih =>
    cases b with
    | false => exact ih hl
    | true =>
      have hx := hl x List.mem_cons_self
      have ht := behind_lt h t
      have hsucc : behind h (x + 1) = behind h x + 1 := behind_succ (by omega)
      obtain ⟨hle, hlt⟩ := ih fun k hk => hl k (List.mem_cons_of_mem x hk)
      rw [hsucc] at hle
      refine ⟨Nat.le_of_succ_le hle, fun k hk => ?_⟩
      rcases List.mem_cons.mp hk with rfl | hk
      · exact hle
      · exact hlt k hk

theorem AgesInv.committed_next (h : AgesInv (s, g)) (hok : DispatchOk s i)
    (hk : (s.next i).liveStoreMask k = true) (hc : ((s.next i).stq k).committed = true) :
    behind (s.next i).stqHead k < behind (s.next i).stqHead (s.next i).stqCommitHead := by
  obtain ⟨hle, hlt⟩ := behind_takeFrom (i.commit.map (·.store)) hok.commits
  change (s.nextStq i k).committed = true at hc
  simp only [nextStq] at hc
  split at hc
  · exact absurd hc Bool.false_ne_true
  · rename_i hclear
    have hne : s.clearStore i = true → k ≠ s.stqHead := fun h heq =>
      hclear (by rw [cleared, h, decide_eq_true heq]; rfl)
    refine behind_nextHead hne ?_
    split at hc
    · rename_i hmem
      exact hlt k (of_decide_eq_true hmem)
    · obtain ⟨hold, hlive⟩ := (foldl_slot_stq i.dec (s.enqStart i) k).2 hc
      have hstart := live_enqStart (hlive ▸ (liveStoreMask_next hk).1)
      exact (h.committed k hstart.1 hold).trans_le hle

theorem AgesInv.entry_next (h : AgesInv (s, g))
    (hk : ((s.next i).stq k).entryVal = true) : (s.next i).liveStoreMask k = true := by
  change (s.nextStq i k).entryVal = true at hk
  simp only [nextStq] at hk
  split at hk
  · exact absurd hk Bool.false_ne_true
  · rename_i hexc
    split at hk
    · exact absurd hk Bool.false_ne_true
    · rename_i hclear
      split at hk
      · exact absurd hk Bool.false_ne_true
      · rename_i hkill
        change ((s.enq i).nextLiveStoreMask k && !s.stBrKilled i k && !s.stExcKilled i k) = true
        have hlive : (s.enq i).nextLiveStoreMask k = true := by
          rcases (foldl_slot_stq i.dec (s.enqStart i) k).1 hk with hnew | ⟨hentry, hsame⟩
          · exact hnew
          · refine hsame.trans ?_
            have hold := h.entry k hentry
            simp only [enqStart]
            split
            · rename_i hdone
              rw [update_of_ne fun heq => hclear (by rw [cleared, hdone, heq]; simp)]
              exact hold
            · exact hold
        rw [hlive, Bool.eq_false_of_not_eq_true hexc, Bool.eq_false_of_not_eq_true hkill]
        rfl

/-- **One cycle.** -/
theorem agesInv_next (h : AgesInv (s, g)) (hok : DispatchOk s i) :
    AgesInv (s.next i, nextAges s i g) := by
  obtain ⟨hq, -⟩ := h.enq hok
  refine ⟨⟨fun k hk => h.window_next hok hk, fun k k' hk hk' hlt => ?_, fun k hk => ?_,
    fun j hj => h.loads_next hok hj, fun j hj => ?_⟩, fun k hk => h.entry_next hk,
    fun k hk hc => h.committed_next hok hk hc⟩
  · exact hq.order k k' (liveStoreMask_next hk).1 (liveStoreMask_next hk').1 hlt
  · exact hq.below k (liveStoreMask_next hk).1
  · exact hq.ldqIdx j (allocated_next hj).2.2.2

end Step

/-! ### Every run -/

theorem AgesInv.of_isReset (h : s.IsReset) (g : StoreAges c) : AgesInv (s, g) where
  queue := ⟨fun k hk => absurd hk (by simp [h.liveStoreMask]),
    fun k _ hk => absurd hk (by simp [h.liveStoreMask]),
    fun k hk => absurd hk (by simp [h.liveStoreMask]),
    fun j hj => absurd hj (by simp [h.allocated]), fun j hj => absurd hj (by simp [h.allocated])⟩
  entry k hk := absurd hk (by simp [h.entryVal])
  committed k hk := absurd hk (by simp [h.liveStoreMask])

/-- In every run, for a load that is in the queue: the comparison of the ordering check holds
exactly when the store the load has its data from is older than the one that arrives, whether or not
it is still in the queue; and the age logic selects the youngest of any matching stores the load
depends on, if there is one. -/
theorem store_ages_right (c : BOOMConf) :
    ∀ x, ((agesMachine c).restrict fun x i => DispatchOk x.1 i).Reachable x →
      ∀ j, (x.1.laq j).allocated = true → AgesRight x.1 x.2 j := by
  have hinv : ∀ x, ((agesMachine c).restrict fun x i => DispatchOk x.1 i).Reachable x →
      AgesInv x := by
    refine Machine.invariant ?_ ?_
    · rintro ⟨s, g⟩ ⟨hs, -⟩
      exact .of_isReset hs g
    · rintro ⟨s, g⟩ i ⟨s', g'⟩ - h ⟨hok, rfl, rfl⟩
      exact agesInv_next h hok
  exact fun x hx j hj => ((hinv x hx).queue.loads j hj).right

/-- Two stores and a load behind them, which gets its data from the second. -/
def loadBehindTwo : List (LSUInput .chip) :=
  let store : MicroOp .chip := ⟨.sta, false, .d, fun _ => false, 0, 0, 0, 0⟩
  let load : MicroOp .chip := ⟨.ld, false, .d, fun _ => false, 0, 2, 7, 2⟩
  let second : MicroOp .chip := { store with stqIdx := 1 }
  [{ LSUInput.quiet with dec := [⟨false, true, store⟩, ⟨false, true, second⟩] },
    { LSUInput.quiet with dec := [⟨true, false, load⟩], exeReq := some ⟨second, 64⟩ },
    { LSUInput.quiet with exeReq := some ⟨{ second with uopc := .std }, 5⟩ },
    { LSUInput.quiet with exeReq := some ⟨load, 64⟩ }]

/-- When the address of the first arrives, the load has got its data from a younger store. -/
theorem store_ages_right_two :
    ∃ x, ((agesMachine .chip).restrict fun x i => DispatchOk x.1 i).Reachable x ∧
      x.2.source 0 = 1 ∧ x.2.number 0 = 0 ∧ (x.1.laq 0).forwardedStdVal = true ∧
        AgesRight x.1 x.2 0 := by
  have hinit : ((agesMachine .chip).restrict fun x i => DispatchOk x.1 i).Reachable
      (reset .chip, ⟨0, fun _ => 0, fun _ => 0, fun _ => 0⟩) := .init ⟨isReset_reset .chip, rfl⟩
  have hreach := Machine.reachable_restrict_cycles hinit loadBehindTwo (by decide +kernel)
  exact ⟨_, hreach, by decide +kernel, by decide +kernel, by decide +kernel,
    store_ages_right .chip _ hreach 0 (by decide +kernel)⟩

end LSU

end RiscvSoc
