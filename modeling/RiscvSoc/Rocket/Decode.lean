import RiscvSoc.Lib.Cube
import Mathlib.Data.Int.Bitwise
import Mathlib.Data.List.Sort
import Mathlib.Data.List.Dedup

/-!
# The decode table compiler

`decode.scala`: a table of bit patterns with don't-cares is turned into one sum of products per
output bit. The generator runs while the circuit is built, so an assertion that fails there means
that there is no circuit; such functions return an `Option`.

## Reading the source

A `Term` carries a `prime` flag that `merge` clears on both of its arguments. The flag is read only
while the row of the term is worked on, so the model keeps the flags of a row as the list of its
terms that were merged, each with its column.

Sets are lists without duplicates, and `SetOrder` is the order in which a hash set lists them.
Nothing is assumed of it.

A `BigInt` is an integer, with the bits of its two's complement. `1L << i` in `getImplicitDC` is a
64-bit integer that is widened afterwards (`longBit`): bit 63 is its sign, and from 64 on the shift
starts again at bit 0. So above 63 variables a term may get a negative mask. What Chisel makes of
the literals of such a term, `test` does not try to say.

An expression is a function of the circuit's state, and `caches` remembers for a module which
comparison was built for a term. Neither the address nor the width is part of the key.
-/

namespace RiscvSoc

/-! ### Terms -/

/-- `bitCount`: how many bits differ from the sign. -/
def BigInt.bitCount : ℤ → ℕ
  | .ofNat n => Bits.bitCount n
  | .negSucc n => Bits.bitCount n

/-- `1L << i`. -/
def longBit (i : ℕ) : ℤ := (1#64 <<< (i % 64)).toInt

/-- A product term: the words that equal `value` outside `mask`. -/
structure Term where
  value : ℤ
  mask : ℤ
deriving DecidableEq, Repr

namespace Term

def covers (t x : Term) : Bool :=
  ((t.value.xor x.value).ldiff t.mask).lor (x.mask.ldiff t.mask) == 0

def intersects (t x : Term) : Bool := ((t.value.xor x.value).ldiff t.mask).ldiff x.mask == 0

def less (t that : Term) : Bool :=
  decide (t.value < that.value) || (t.value == that.value && decide (t.mask < that.mask))

def similar (t x : Term) : Bool :=
  let diff := t.value - x.value
  t.mask == x.mask && decide (x.value < t.value) && diff.land (diff - 1) == 0

def merge (t x : Term) : Term :=
  let bit := t.value - x.value
  ⟨t.value.ldiff bit, t.mask.lor bit⟩

/-- `sortWith(_<_)`, which is stable. -/
def sort (l : List Term) : List Term := l.insertionSort fun a b => ¬b.less a

end Term

/-- The order in which a hash set lists its elements. -/
structure SetOrder where
  list : List Term → List Term
  perm : ∀ l, (list l).Perm l

@[simp] theorem SetOrder.mem_list {ord : SetOrder} {l : List Term} {t : Term} :
    t ∈ ord.list l ↔ t ∈ l := (ord.perm l).mem_iff

/-- `reduceLeft`, which fails on an empty sequence. -/
def reduceLeft {α : Type} (f : α → α → Option α) : List α → Option α
  | [] => none
  | x :: xs => xs.foldlM f x

/-! ### The rows of the table -/

/-- The table of the implicants that are given, at row `i`: in column `j` those with `i` free bits
and `j` ones. -/
def tableRow (implicants : List Term) (bits i : ℕ) : List (List Term) :=
  (List.range (bits + 1)).map fun j =>
    (implicants.filter fun t =>
      i = BigInt.bitCount t.mask ∧ j = BigInt.bitCount t.value).dedup

/-- What the work on a row leaves: the next row, and the terms of this one that are not prime. -/
structure RowWork where
  next : List (List Term)
  merged : List (ℕ × Term)

/-- `table(i+1)(j) += t` and `prime = false` for those that `t` was merged from. -/
def RowWork.add (w : RowWork) (j : ℕ) (t : Term) (parents : List (ℕ × Term)) : RowWork :=
  ⟨w.next.modify j (·.insert t), parents ++ w.merged⟩

/-- The pairs of neighbouring columns that differ in one bit. -/
def mergePairs (ord : SetOrder) (lo hi : List Term) : List (Term × Term) :=
  (ord.list lo).flatMap fun a => (ord.list (hi.filter (·.similar a))).map fun x => (x, a)

/-- `table(i)(j).foreach(a => table(i+1)(j) ++= table(i)(j+1).filter(_.similar(a)).map(_.merge(a)))`
-/
def mergeColumn (ord : SetOrder) (r : List (List Term)) (w : RowWork) (j : ℕ) : RowWork :=
  (mergePairs ord (r.getD j []) (r.getD (j + 1) [])).foldl
    (fun w p => w.add j (p.1.merge p.2) [(j + 1, p.1), (j, p.2)]) w

/-- The loop over the rows: `work` is what its body does to row `i`, and the terms it leaves prime
are collected. -/
def collectPrimes (ord : SetOrder) (work : ℕ → List (List Term) → RowWork) :
    ℕ → ℕ → List (List Term) → List Term → List Term
  | 0, _, _, prime => prime
  | n + 1, i, r, prime =>
    let w := work i r
    collectPrimes ord work n (i + 1) w.next
      ((r.zipIdx.flatMap fun s =>
        (ord.list s.1).filter fun t => (s.2, t) ∉ w.merged).reverse ++ prime)

/-! ### Minimising with don't-cares -/

namespace Simplify

def mergeRow (ord : SetOrder) (implicants : List Term) (bits i : ℕ) (r : List (List Term)) :
    RowWork :=
  (List.range (bits - i)).foldl (mergeColumn ord r) ⟨tableRow implicants bits (i + 1), []⟩

def getPrimeImplicants (ord : SetOrder) (implicants : List Term) (bits : ℕ) : List Term :=
  Term.sort (collectPrimes ord (mergeRow ord implicants bits) (bits + 1) 0
    (tableRow implicants bits 0) [])

/-- `p` covers more minterms than `q` does, and those of `q` among them. -/
def dominates (minterms : List Term) (p q : Term) : Bool :=
  let icover := minterms.filter p.covers
  let jcover := minterms.filter q.covers
  decide (jcover.length < icover.length) && jcover.all p.covers

/-- The first superfluous implicant the two loops come across. -/
def findDominated (prime minterms : List Term) : Option Term :=
  prime.findSome? fun p => prime.find? (dominates minterms p)

theorem mem_of_findDominated {prime minterms : List Term} {q : Term}
    (h : findDominated prime minterms = some q) :
    ∃ p ∈ prime, q ∈ prime ∧ dominates minterms p q = true := by
  obtain ⟨p, hp, hq⟩ := List.exists_of_findSome?_eq_some h
  exact ⟨p, hp, List.mem_of_find?_eq_some hq, List.find?_some hq⟩

def without (l removed : List Term) : List Term := l.filter (· ∉ removed)

variable {l removed : List Term} {t : Term}

theorem mem_without :
    t ∈ without l removed ↔ t ∈ l ∧ t ∉ removed := by
  rw [without, List.mem_filter, decide_eq_true_iff]

theorem length_without_lt (hl : t ∈ l) (hr : t ∈ removed) :
    (without l removed).length < l.length :=
  List.length_filter_lt_length_iff_exists.mpr ⟨t, hl, by simpa using hr⟩

/-- The implicants that alone cover some minterm. -/
def essentials (prime minterms : List Term) : List Term :=
  let essentiallyCovered := minterms.filter fun t => prime.countP (·.covers t) == 1
  prime.filter fun p => essentiallyCovered.any p.covers

def uncoveredBy (minterms cover : List Term) : List Term :=
  minterms.filter fun t => !cover.any (·.covers t)

def getEssentialPrimeImplicants (prime minterms : List Term) : List Term × List Term × List Term :=
  match _hq : findDominated prime minterms with
  | some q => getEssentialPrimeImplicants (without prime [q]) minterms
  | none =>
    let essential := essentials prime minterms
    let nonessential := without prime essential
    let uncovered := uncoveredBy minterms essential
    if _he : essential = [] ∨ uncovered = [] then
      (essential, nonessential, uncovered)
    else
      let r := getEssentialPrimeImplicants nonessential uncovered
      (essential ++ r.1, r.2.1, r.2.2)
termination_by prime.length
decreasing_by
  · obtain ⟨_, _, hmem, _⟩ := mem_of_findDominated _hq
    exact length_without_lt hmem (List.mem_singleton.mpr rfl)
  · obtain ⟨p, hp⟩ := List.exists_mem_of_ne_nil _ (not_or.mp _he).1
    exact length_without_lt (List.mem_of_mem_filter hp) hp

def getCost (cover : List Term) (bits : ℕ) : ℤ :=
  (cover.map fun t => (bits : ℤ) - BigInt.bitCount t.mask).sum

def listLess : List Term → List Term → Bool
  | _, [] => false
  | [], _ :: _ => true
  | a :: as, b :: bs => a.less b || (a == b && listLess as bs)

def cheaper (a b : List Term) (bits : ℕ) : Bool :=
  let ca := getCost a bits
  let cb := getCost b bits
  decide (ca < cb) || (ca == cb && listLess (Term.sort a) (Term.sort b))

/-- All ways to pick an implicant for every minterm, and the cheapest of them. -/
def getCover (ord : SetOrder) (implicants minterms : List Term) (bits : ℕ) : Option (List Term) :=
  if minterms = [] then some []
  else do
    let cover := minterms.map fun m => (implicants.filter (·.covers m)).map fun i => [i]
    let all ← reduceLeft (fun c0 c1 =>
      reduceLeft (fun x y => some (x ++ y)) (c0.map fun a => c1.map (· ∪ a))) cover
    reduceLeft (fun a b => some (if cheaper a b bits then a else b)) (all.map ord.list)

def apply (ord : SetOrder) (minterms dontcares : List Term) (bits : ℕ) : Option (List Term) := do
  let prime := getPrimeImplicants ord (minterms ++ dontcares) bits
  guard (∀ t ∈ minterms, prime.any (·.covers t))
  let r := getEssentialPrimeImplicants prime minterms
  let cover := r.1 ++ (← getCover ord r.2.1 r.2.2 bits)
  guard (∀ t ∈ minterms, cover.any (·.covers t))
  return cover

end Simplify

/-! ### Minimising with explicit zeros -/

namespace SimplifyDC

/-- The term with one more bit, or one bit less, at the first position where that meets no
maxterm. -/
def getImplicitDC (maxterms : List Term) (term : Term) (bits : ℕ) (above : Bool) : Option Term :=
  (List.range bits).findSome? fun i =>
    let t : Option Term :=
      if above && (term.value.lor term.mask).land (longBit i) == 0 then
        some ⟨term.value.lor (longBit i), term.mask⟩
      else if !above && term.value.land (longBit i) != 0 then
        some ⟨term.value.land (longBit i).lnot, term.mask⟩
      else none
    t.filter fun t => !maxterms.any (·.intersects t)

/-- The terms of column `j` that are still prime. -/
def primeIn (ord : SetOrder) (r : List (List Term)) (w : RowWork) (j : ℕ) : List Term :=
  ord.list ((r.getD j []).filter fun t => (j, t) ∉ w.merged)

def growAbove (maxterms : List Term) (bits j : ℕ) (w : RowWork) (a : Term) : RowWork :=
  match getImplicitDC maxterms a bits true with
  | none => w
  | some dc => w.add j (dc.merge a) [(j, a)]

def growBelow (maxterms : List Term) (bits j : ℕ) (w : RowWork) (a : Term) : RowWork :=
  match getImplicitDC maxterms a bits false with
  | none => w
  | some dc => w.add j (a.merge dc) [(j + 1, a)]

/-- The second loop over the columns: terms that are still prime grow into the don't-cares. -/
def growColumn (ord : SetOrder) (maxterms : List Term) (bits : ℕ) (r : List (List Term))
    (w : RowWork) (j : ℕ) : RowWork :=
  let w := (primeIn ord r w j).foldl (growAbove maxterms bits j) w
  (primeIn ord r w (j + 1)).foldl (growBelow maxterms bits j) w

def growRow (ord : SetOrder) (minterms maxterms : List Term) (bits i : ℕ)
    (r : List (List Term)) : RowWork :=
  (List.range (bits - i)).foldl (growColumn ord maxterms bits r)
    (Simplify.mergeRow ord minterms bits i r)

def getPrimeImplicants (ord : SetOrder) (minterms maxterms : List Term) (bits : ℕ) : List Term :=
  Term.sort (collectPrimes ord (growRow ord minterms maxterms bits) (bits + 1) 0
    (tableRow minterms bits 0) [])

/-- The assertions of `verify`. -/
def Verified (cover minterms maxterms : List Term) : Prop :=
  (∀ t ∈ minterms, cover.any (·.covers t)) ∧ ∀ t ∈ maxterms, ¬cover.any (·.intersects t)

instance (cover minterms maxterms : List Term) : Decidable (Verified cover minterms maxterms) :=
  inferInstanceAs (Decidable (_ ∧ _))

def apply (ord : SetOrder) (minterms maxterms : List Term) (bits : ℕ) : Option (List Term) := do
  let prime := getPrimeImplicants ord minterms maxterms bits
  let r := Simplify.getEssentialPrimeImplicants prime minterms
  let cover := r.1 ++ (← Simplify.getCover ord r.2.1 r.2.2 bits)
  guard (Verified cover minterms maxterms)
  return cover

end SimplifyDC

/-! ### The table compiler -/

/-- A literal bit pattern: the digits that are given, with zeros for the others, and the mask of
the others. -/
structure Pattern where
  width : ℕ
  value : ℕ
  mask : ℕ
  value_lt : value < 2 ^ width
  mask_lt : mask < 2 ^ width
  disjoint : value &&& mask = 0

namespace DecodeLogic

variable {σ : Type}

/-- The comparisons built so far in a module, by term. -/
abbrev Cache (σ : Type) := List (Term × (σ → Bool))

def term (b : Pattern) : Term := ⟨b.value, b.mask⟩

/-- The comparison of an address with a term. -/
def test (addr : σ → ℕ) (addrWidth : ℕ) (t : Term) (e : σ) : Bool :=
  (if t.mask = 0 then (addr e : ℤ) else (addr e : ℤ).land (2 ^ addrWidth - (t.mask + 1))) == t.value

/-- `cache.getOrElseUpdate`, term by term. -/
def tests (addr : σ → ℕ) (addrWidth : ℕ) : Cache σ → List Term → List (σ → Bool) × Cache σ
  | cache, [] => ([], cache)
  | cache, t :: ts =>
    let (s, cache) := match cache.lookup t with
      | some s => (s, cache)
      | none => (test addr addrWidth t, (t, test addr addrWidth t) :: cache)
    let (rest, cache) := tests addr addrWidth cache ts
    (s :: rest, cache)

def logic (addr : σ → ℕ) (addrWidth : ℕ) (cache : Cache σ) (terms : List Term) :
    (σ → Bool) × Cache σ :=
  let (ts, cache) := tests addr addrWidth cache terms
  (ts.foldl (fun a b e => a e || b e) fun _ => false, cache)

/-- `(dterm.value.toInt >> i) & 1`: the low 32 bits, shifted by the low five bits of `i`. -/
def defbit (dterm : Term) (i : ℕ) : Bool := (dterm.value % 2 ^ 32).testBit (i % 32)

/-- The expression of output bit `i`. -/
def outputBit (ord : SetOrder) (addr : σ → ℕ) (addrWidth : ℕ) (dterm : Term)
    (termvalues : List (Term × Term)) (i : ℕ) (cache : Cache σ) :
    Option ((σ → Bool) × Cache σ) :=
  let mint := (termvalues.filter fun kt => !kt.2.mask.testBit i && kt.2.value.testBit i).map (·.1)
  let maxt := (termvalues.filter fun kt => !kt.2.mask.testBit i && !kt.2.value.testBit i).map (·.1)
  let dc := (termvalues.filter fun kt => kt.2.mask.testBit i).map (·.1)
  if dterm.mask.testBit i then do
    let cover ← SimplifyDC.apply ord mint maxt addrWidth
    return logic addr addrWidth cache cover
  else do
    let t := if defbit dterm i then maxt else mint
    let cover ← Simplify.apply ord t dc addrWidth
    let (bit, cache) := logic addr addrWidth cache cover
    return (fun e => bit e ^^ defbit dterm i, cache)

/-- The expressions of the `n` output bits from `i` on, the lowest first. -/
def outputBits (ord : SetOrder) (addr : σ → ℕ) (addrWidth : ℕ) (dterm : Term)
    (termvalues : List (Term × Term)) : ℕ → ℕ → Cache σ → Option (List (σ → Bool) × Cache σ)
  | 0, _, cache => some ([], cache)
  | n + 1, i, cache => do
    let (b, cache) ← outputBit ord addr addrWidth dterm termvalues i cache
    let (bs, cache) ← outputBits ord addr addrWidth dterm termvalues n (i + 1) cache
    return (b :: bs, cache)

/-- One call in a module whose comparisons are `cache`: the expressions of the output bits, the
lowest first, and the comparisons afterwards. -/
def apply (ord : SetOrder) (cache : Cache σ) (addr : σ → ℕ) (default : Pattern)
    (mapping : List (Pattern × Pattern)) : Option (List (σ → Bool) × Cache σ) := do
  let addrWidth ← (mapping.map (·.1.width)).max?
  let termvalues := mapping.map fun kv => (term kv.1, term kv.2)
  guard ((termvalues.map (·.1)).Pairwise fun t u => ¬t.intersects u)
  let width ← (mapping.map (·.2.width)).max?
  outputBits ord addr addrWidth (term default) termvalues (max default.width width) 0 cache

end DecodeLogic

end RiscvSoc
