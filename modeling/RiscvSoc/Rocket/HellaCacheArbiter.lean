import RiscvSoc.Lib.Bits
import RiscvSoc.Lib.Encoder
import RiscvSoc.Lib.Machine
import RiscvSoc.Rocket.SimpleHellaCacheIF

/-!
# Sharing the data cache

`HellaCacheArbiter` from `rocket/src/main/scala/arbiter.scala`. The cache is given the request of
the lowest requestor that has one, and the number of the requestor goes along in the lowest bits of
the tag. The kill and the data of a store follow one cycle after the request, and who they are taken
from is decided anew, from the requests of the cycle before.

A tag has the same number of bits on both sides, so the number pushes the highest bits of the
requestor's tag out. `Tile` makes the tags of its cache wide enough for the numbers and for the
`dcacheReqTagBits` that the requestors use.

## What is left out

`io.requestor.ptw`, which the arbiter does not connect.
-/

namespace RiscvSoc

namespace Rocket

open Bits

structure AlignmentExceptions where
  ld : Bool
  st : Bool
  deriving DecidableEq

structure HellaCacheExceptions where
  ma : AlignmentExceptions
  pf : AlignmentExceptions
  deriving DecidableEq

/-- What the arbiter of `m + 1` requestors sees in one cycle. -/
structure HellaArbiterInput (m : ℕ) where
  reqValid : Fin (m + 1) → Bool
  req : Fin (m + 1) → HellaCacheReq
  memReady : Bool
  respValid : Bool
  resp : HellaCacheResp
  /-- `io.mem.replay_next.bits` under `io.mem.replay_next.valid`. -/
  replayNext : Option ℕ
  xcpt : HellaCacheExceptions
  ordered : Bool

/-- Who had a request in the cycle before. -/
structure HellaCacheArbiter (m : ℕ) where
  rValid : Fin (m + 1) → Bool

namespace HellaCacheArbiter

variable {m : ℕ}

/-- A tag with the number of its requestor, in a field of `reqtagbits` bits. -/
def tagOf (m reqtagbits tag : ℕ) (k : Fin (m + 1)) : ℕ :=
  cat tag (log2Up (m + 1)) k % 2 ^ reqtagbits

section

variable (reqtagbits : ℕ) (s : HellaCacheArbiter m) (i : HellaArbiterInput m)

/-! ### Requests -/

/-- `io.mem.req.valid`. -/
def memReqValid : Bool := orR i.reqValid

/-- `io.requestor(k).req.ready`, with the chain from requestor `0` on. -/
def readyChain : ℕ → Bool
  | 0 => i.memReady
  | k + 1 => readyChain k && !(if h : k < m + 1 then i.reqValid ⟨k, h⟩ else false)

def ready (k : Fin (m + 1)) : Bool := readyChain i k

/-- One round of the loop over the requestors. -/
def muxStep (b : HellaCacheReq) (k : Fin m) : HellaCacheReq :=
  let req := i.req k.castSucc
  let b := if i.reqValid k.castSucc then
      { b with
        cmd := req.cmd
        typ := req.typ
        addr := req.addr
        phys := req.phys
        tag := tagOf m reqtagbits req.tag k.castSucc }
    else b
  if s.rValid k.castSucc then { b with kill := req.kill, data := req.data } else b

/-- `io.mem.req.bits`. -/
def memReq : HellaCacheReq :=
  let req := i.req (Fin.last m)
  (List.finRange m).reverse.foldl (muxStep reqtagbits s i)
    { req with tag := tagOf m reqtagbits req.tag (Fin.last m) }

/-- One cycle. -/
def next : HellaCacheArbiter m where
  rValid := i.reqValid

/-! ### Answers -/

def tagHit (k : Fin (m + 1)) : Bool := bits i.resp.tag (log2Up (m + 1) - 1) 0 == k

/-- `io.requestor(k).resp.valid`. -/
def respValid (k : Fin (m + 1)) : Bool := i.respValid && tagHit i k

/-- `io.requestor(k).resp.bits`. -/
def resp (k : Fin (m + 1)) : HellaCacheResp :=
  { i.resp with
    tag := i.resp.tag / 2 ^ log2Up (m + 1)
    nack := i.resp.nack && tagHit i k
    replay := i.resp.replay && tagHit i k }

/-- `io.requestor(k).replay_next.bits` under `io.requestor(k).replay_next.valid`. -/
def replayNext (k : Fin (m + 1)) : Option ℕ :=
  (i.replayNext.filter fun tag => bits tag (log2Up (m + 1) - 1) 0 == k).map (· / 2 ^ log2Up (m + 1))

/-- `io.requestor(k).xcpt` and `io.requestor(k).ordered`, which are the same for all. -/
def status (_ : Fin (m + 1)) : HellaCacheExceptions × Bool := (i.xcpt, i.ordered)

/-! ### The requests that were taken -/

/-- The request of requestor `k` is taken. -/
def fires (k : Fin (m + 1)) : Bool := i.reqValid k && ready i k

/-- A request that the cache took. -/
structure Taken (m : ℕ) where
  requestor : Fin (m + 1)
  /-- The tag that the requestor gave it. -/
  tag : ℕ
  /-- The tag that the cache saw. -/
  sent : ℕ

/-- The requests that are taken in this cycle. -/
def taken : List (Taken m) :=
  ((List.finRange (m + 1)).filter (fires i)).map fun k =>
    ⟨k, (i.req k).tag, (memReq reqtagbits s i).tag⟩

/-- The arbiter, with a log of the requests that the cache took. -/
def machine (m reqtagbits : ℕ) :
    Machine (HellaCacheArbiter m × List (Taken m)) (HellaArbiterInput m) :=
  (Machine.clocked (fun _ => True) fun _ i => next i).observe []
    fun s i log => log ++ taken reqtagbits s i

end

/-- The tags of the requests have `dcacheReqTagBits` bits. -/
def TagsFit (dcacheReqTagBits : ℕ) (_ : HellaCacheArbiter m × List (Taken m))
    (i : HellaArbiterInput m) : Prop := ∀ k, fires i k = true → (i.req k).tag < 2 ^ dcacheReqTagBits

/-! ### The requestor that is chosen -/

/-- The lowest of the requestors, and the last one if there is none. -/
def chosen (v : Fin (m + 1) → Bool) : Fin (m + 1) := (priorityEncoder v).getD (Fin.last m)

theorem chosen_eq {v : Fin (m + 1) → Bool} {k : Fin (m + 1)} (hk : v k = true)
    (hlow : ∀ j < k, v j = false) : chosen v = k := by
  rw [chosen, priorityEncoder_eq_some.mpr ⟨hk, hlow⟩]
  rfl

theorem foldl_reverse_ite {α β : Type} (l : List α) (c : α → Bool) (f : α → β) (b : β) :
    l.reverse.foldl (fun b k => if c k then f k else b) b = ((l.find? c).map f).getD b := by
  rw [List.foldl_reverse]
  induction l with
  | nil => rfl
  | cons a l ih =>
    rw [List.foldr_cons, List.find?_cons]
    cases c a with
    | true => rfl
    | false => exact ih

/-- A chain of multiplexers that ends in the last requestor. -/
theorem foldl_mux {β : Type} (v : Fin (m + 1) → Bool) (f : Fin (m + 1) → β) :
    (List.finRange m).reverse.foldl (fun b k => if v k.castSucc then f k.castSucc else b)
      (f (Fin.last m)) = f (chosen v) := by
  refine (foldl_reverse_ite (List.finRange m) (fun k => v k.castSucc) (fun k => f k.castSucc)
    (f (Fin.last m))).trans ?_
  cases hfind : (List.finRange m).find? fun k => v k.castSucc with
  | none =>
    have hnone : ∀ k : Fin m, v k.castSucc = false := by simpa using hfind
    have hchosen : chosen v = Fin.last m := by
      rw [chosen]
      cases hv : priorityEncoder v with
      | none => rfl
      | some k =>
        induction k using Fin.lastCases with
        | last => rfl
        | cast k =>
          exact absurd (priorityEncoder_some hv) (by rw [hnone k]; exact Bool.false_ne_true)
    rw [hchosen]
    rfl
  | some k =>
    obtain ⟨hk, hlow⟩ := priorityEncoder_eq_some.mp hfind
    have hchosen : chosen v = k.castSucc := by
      refine chosen_eq hk fun j hj => ?_
      induction j using Fin.lastCases with
      | last => exact absurd hj (Fin.not_lt.mpr (Fin.le_last _))
      | cast j => exact hlow j (Fin.castSucc_lt_castSucc_iff.mp hj)
    rw [hchosen]
    rfl

variable {reqtagbits dcacheReqTagBits : ℕ} {s : HellaCacheArbiter m} {i : HellaArbiterInput m}
  {k : Fin (m + 1)}

/-- **What the cache sees**: the request of one requestor, and the kill and the data of another. -/
theorem memReq_eq : memReq reqtagbits s i =
    { i.req (chosen i.reqValid) with
      tag := tagOf m reqtagbits (i.req (chosen i.reqValid)).tag (chosen i.reqValid)
      kill := (i.req (chosen s.rValid)).kill
      data := (i.req (chosen s.rValid)).data } := by
  have hfield : ∀ {β : Type} (get : HellaCacheReq → β) (v : Fin (m + 1) → Bool)
      (f : Fin (m + 1) → β),
      (∀ b k, get (muxStep reqtagbits s i b k) = if v k.castSucc then f k.castSucc else get b) →
      get { i.req (Fin.last m) with
        tag := tagOf m reqtagbits (i.req (Fin.last m)).tag (Fin.last m) } = f (Fin.last m) →
      get (memReq reqtagbits s i) = f (chosen v) := by
    intro β get v f hstep hlast
    rw [← foldl_mux v f, ← hlast, memReq]
    exact (List.foldl_hom get fun b k => (hstep b k).symm).symm
  have hreq := hfield (fun b => (b.cmd, b.typ, b.addr, b.phys, b.tag)) i.reqValid
    (fun k => ((i.req k).cmd, (i.req k).typ, (i.req k).addr, (i.req k).phys,
      tagOf m reqtagbits (i.req k).tag k))
    (fun b k => by simp only [muxStep]; split <;> split <;> rfl) rfl
  have hdata := hfield (fun b => (b.kill, b.data)) s.rValid
    (fun k => ((i.req k).kill, (i.req k).data))
    (fun b k => by simp only [muxStep]; split <;> split <;> rfl) rfl
  cases hmem : memReq reqtagbits s i with
  | mk kill typ phys addr data tag cmd =>
    rw [hmem, Prod.mk.injEq] at hreq hdata
    simp only [Prod.mk.injEq] at hreq
    obtain ⟨rfl, rfl, rfl, rfl, rfl⟩ := hreq
    obtain ⟨rfl, rfl⟩ := hdata
    rfl

/-! ### Who is served -/

theorem readyChain_eq (j : ℕ) (hj : j ≤ m + 1) : readyChain i j = true ↔
    i.memReady = true ∧ ∀ k : Fin (m + 1), (k : ℕ) < j → i.reqValid k = false := by
  induction j with
  | zero => exact ⟨fun h => ⟨h, fun _ hk => absurd hk (Nat.not_lt_zero _)⟩, And.left⟩
  | succ j ih =>
    rw [readyChain, dif_pos (show j < m + 1 from hj), Bool.and_eq_true, ih (Nat.le_of_succ_le hj),
      Bool.not_eq_true', and_assoc]
    refine and_congr_right fun _ => ⟨fun ⟨hlow, hself⟩ k hk => ?_, fun h => ⟨fun k hk => ?_, ?_⟩⟩
    · rcases Nat.lt_succ_iff_lt_or_eq.mp hk with hlt | rfl
      · exact hlow k hlt
      · exact hself
    · exact h k (Nat.lt_succ_of_lt hk)
    · exact h ⟨j, hj⟩ (Nat.lt_succ_self j)

theorem fires_iff : fires i k = true ↔
    i.memReady = true ∧ i.reqValid k = true ∧ ∀ j < k, i.reqValid j = false := by
  rw [fires, ready, Bool.and_eq_true, readyChain_eq k k.isLt.le]
  tauto

theorem chosen_of_fires (h : fires i k = true) : chosen i.reqValid = k :=
  chosen_eq (fires_iff.mp h).2.1 (fires_iff.mp h).2.2

/-- The cache takes a request if and only if a requestor is served. -/
theorem memReq_fires_iff :
    (memReqValid i && i.memReady) = true ↔ ∃ k, fires i k = true := by
  rw [Bool.and_eq_true, memReqValid, orR, Option.isSome_iff_exists]
  constructor
  · rintro ⟨⟨k, hk⟩, hready⟩
    exact ⟨k, fires_iff.mpr ⟨hready, priorityEncoder_eq_some.mp hk⟩⟩
  · rintro ⟨k, hk⟩
    obtain ⟨hready, hself⟩ := fires_iff.mp hk
    exact ⟨⟨k, priorityEncoder_eq_some.mpr hself⟩, hready⟩

/-! ### Tags -/

theorem lt_two_pow_log2Up_succ (k : Fin (m + 1)) : (k : ℕ) < 2 ^ log2Up (m + 1) :=
  k.isLt.trans_le (le_two_pow_log2Up _)

theorem log2Up_succ_pos (m : ℕ) : 0 < log2Up (m + 1) := by
  by_contra h
  have hle := le_two_pow_log2Up (m + 1)
  rw [Nat.eq_zero_of_not_pos h, pow_zero] at hle
  obtain rfl : m = 0 := by omega
  exact h Nat.one_pos

theorem tagOf_eq {tag : ℕ} (htag : tag < 2 ^ dcacheReqTagBits) :
    tagOf m (dcacheReqTagBits + log2Up (m + 1)) tag k = cat tag (log2Up (m + 1)) k :=
  Nat.mod_eq_of_lt (cat_lt htag (lt_two_pow_log2Up_succ k))

/-- What the log says of a request. -/
def Taken.Fits (dcacheReqTagBits : ℕ) (r : Taken m) : Prop :=
  r.tag < 2 ^ dcacheReqTagBits ∧
    r.sent = tagOf m (dcacheReqTagBits + log2Up (m + 1)) r.tag r.requestor

theorem Taken.Fits.requestor_eq {r : Taken m} (h : r.Fits dcacheReqTagBits) :
    (bits r.sent (log2Up (m + 1) - 1) 0 == (k : ℕ)) = decide (k = r.requestor) := by
  rw [h.2, tagOf_eq h.1, bits_low (log2Up_succ_pos m), cat_mod (lt_two_pow_log2Up_succ _),
    beq_eq_decide, decide_eq_decide, eq_comm, Fin.val_inj]

theorem Taken.Fits.tag_eq {r : Taken m} (h : r.Fits dcacheReqTagBits) :
    r.sent / 2 ^ log2Up (m + 1) = r.tag := by
  rw [h.2, tagOf_eq h.1, cat_div (lt_two_pow_log2Up_succ _)]

/-- **Every request in the log went out with its tag and its requestor.** -/
theorem fits_of_reachable (x : HellaCacheArbiter m × List (Taken m))
    (hx : ((machine m (dcacheReqTagBits + log2Up (m + 1))).restrict
      (TagsFit dcacheReqTagBits)).Reachable x) : ∀ r ∈ x.2, r.Fits dcacheReqTagBits := by
  refine Machine.invariant (I := fun x => ∀ r ∈ x.2, r.Fits dcacheReqTagBits)
    (fun x hinit r hr => ?_) (fun x i x' _ ih hstep r hr => ?_) x hx
  · rw [hinit.2] at hr
    cases hr
  · obtain ⟨hfit, -, hlog⟩ := hstep
    rw [hlog] at hr
    rcases List.mem_append.mp hr with hr | hr
    · exact ih r hr
    · obtain ⟨k, hk, rfl⟩ := List.mem_map.mp hr
      have hfire := (List.mem_filter.mp hk).2
      refine ⟨hfit k hfire, ?_⟩
      show (memReq _ x.1 i).tag = _
      rw [memReq_eq]
      show tagOf m _ (i.req (chosen i.reqValid)).tag (chosen i.reqValid) = _
      rw [chosen_of_fires hfire]

/-! ### Transparency -/

/-- The cache is given the request of requestor `k`, and in the next cycle its kill and its data. -/
structure Sends (reqtagbits : ℕ) (s : HellaCacheArbiter m) (i : HellaArbiterInput m)
    (k : Fin (m + 1)) : Prop where
  cmd : (memReq reqtagbits s i).cmd = (i.req k).cmd
  typ : (memReq reqtagbits s i).typ = (i.req k).typ
  addr : (memReq reqtagbits s i).addr = (i.req k).addr
  phys : (memReq reqtagbits s i).phys = (i.req k).phys
  kill : ∀ i', (memReq reqtagbits (next i) i').kill = (i'.req k).kill
  data : ∀ i', (memReq reqtagbits (next i) i').data = (i'.req k).data

/-- An answer with the tag of a request reaches its requestor, with the tag that the requestor gave
it, and nobody else. -/
structure Answers (i : HellaArbiterInput m) (r : Taken m) : Prop where
  resp : i.resp.tag = r.sent → ∀ j, resp i j = { i.resp with
      tag := r.tag
      nack := i.resp.nack && decide (j = r.requestor)
      replay := i.resp.replay && decide (j = r.requestor) } ∧
    respValid i j = (i.respValid && decide (j = r.requestor))
  replayNext : i.replayNext = some r.sent → ∀ j,
    replayNext i j = if j = r.requestor then some r.tag else none

theorem sends_of_fires (h : fires i k = true) : Sends reqtagbits s i k := by
  have hreq : memReq reqtagbits s i = _ := memReq_eq
  have hnext : ∀ i', memReq reqtagbits (next i) i' = _ := fun i' => memReq_eq
  rw [chosen_of_fires h] at hreq
  have hchosen : chosen (next i).rValid = k := chosen_of_fires h
  constructor
  · rw [hreq]
  · rw [hreq]
  · rw [hreq]
  · rw [hreq]
  · intro i'
    rw [hnext, hchosen]
  · intro i'
    rw [hnext, hchosen]

theorem Taken.Fits.answers {r : Taken m} (h : r.Fits dcacheReqTagBits) : Answers i r := by
  constructor
  · intro htag j
    have hhit : tagHit i j = decide (j = r.requestor) := by
      rw [tagHit, htag]
      exact h.requestor_eq
    rw [HellaCacheArbiter.resp, HellaCacheArbiter.respValid, hhit, htag, h.tag_eq]
    exact ⟨rfl, rfl⟩
  · intro hnext j
    rw [HellaCacheArbiter.replayNext, hnext, Option.filter_some, h.requestor_eq]
    by_cases hj : j = r.requestor
    · rw [decide_eq_true hj, if_pos rfl, if_pos hj, Option.map_some, h.tag_eq]
    · rw [decide_eq_false hj, if_neg (by simp), if_neg hj]
      rfl

/-- **Sharing the cache is transparent.** In every run whose requestors use tags of
`dcacheReqTagBits` bits, the cache takes at most one request in a cycle, that of the lowest
requestor that has one, all parts of a request are those of its requestor, and an answer reaches the
requestor whose request it is for, with the tag that it gave the request. -/
theorem sharing_transparent (x : HellaCacheArbiter m × List (Taken m))
    (hx : ((machine m (dcacheReqTagBits + log2Up (m + 1))).restrict
      (TagsFit dcacheReqTagBits)).Reachable x) (i : HellaArbiterInput m) :
    (∀ k, fires i k = true ↔
      i.memReady = true ∧ i.reqValid k = true ∧ ∀ j < k, i.reqValid j = false) ∧
    (∀ j k, fires i j = true → fires i k = true → j = k) ∧
    ((memReqValid i && i.memReady) = true ↔ ∃ k, fires i k = true) ∧
    (∀ k, fires i k = true → Sends (dcacheReqTagBits + log2Up (m + 1)) x.1 i k) ∧
    ∀ r ∈ x.2, Answers i r :=
  ⟨fun _ => fires_iff, fun _ _ hj hk => (chosen_of_fires hj).symm.trans (chosen_of_fires hk),
    memReq_fires_iff, fun _ => sends_of_fires, fun r hr => (fits_of_reachable x hx r hr).answers⟩

/-- Two requestors ask at once, and an answer comes for the request of the first one. -/
def bothAsk : HellaArbiterInput 1 where
  reqValid := fun _ => true
  req := fun k => ⟨false, 3, true, 64, 0, 5 + k, .xrd⟩
  memReady := true
  respValid := true
  resp := ⟨false, false, 3, true, 0, 0, 10, .xrd, 64, 0⟩
  replayNext := some 10
  xcpt := ⟨⟨false, false⟩, ⟨false, false⟩⟩
  ordered := true

theorem sharing_transparent_bothAsk : fires bothAsk 0 = true ∧ Sends 8 ⟨fun _ => true⟩ bothAsk 0 ∧
    taken 8 ⟨fun _ => false⟩ bothAsk = [⟨0, 5, 10⟩] ∧ Answers bothAsk ⟨0, 5, 10⟩ := by
  have hx : ((machine 1 (7 + log2Up 2)).restrict (TagsFit 7)).Reachable
      (⟨fun _ => true⟩, [⟨0, 5, 10⟩]) := by
    refine .step (s := (⟨fun _ => false⟩, [])) (a := bothAsk) (.init ⟨trivial, rfl⟩)
      ⟨fun k _ => ?_, rfl, rfl⟩
    show 5 + (k : ℕ) < 2 ^ 7
    omega
  obtain ⟨hfires, -, -, hsends, hans⟩ := sharing_transparent _ hx bothAsk
  have h0 : fires bothAsk 0 = true := (hfires 0).mpr ⟨rfl, rfl, (by simp)⟩
  exact ⟨h0, hsends 0 h0, rfl, hans _ List.mem_cons_self⟩

end HellaCacheArbiter

end Rocket

end RiscvSoc
