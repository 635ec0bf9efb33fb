import RiscvSoc.Lib.Arbiter
import RiscvSoc.Lib.Bits
import RiscvSoc.Lib.Machine

/-!
# The page table walker

`PTW` from `rocket/src/main/scala/ptw.scala`, one clock cycle at a time. Several requestors share
the walker. It keeps one register for the last page table entry it has read and one counter for the
level; the counter selects both the part of the virtual page number that indexes the next table and
the way the answer is put together.

A walk has a reference as well: `walk`, which descends a page table by recursion on the levels that
are left.

## The numbers

A page table entry has eight bytes and a table fills a page, so an index into a table has three bits
less than an offset into a page. The source does not say so, but its addresses mean nothing
otherwise, and it is so on the chip.
-/

namespace RiscvSoc

open Bits

structure AddressSpaceConfiguration where
  paddrBits : ℕ
  vaddrBits : ℕ
  pgIdxBits : ℕ
  asidBits : ℕ
  permBits : ℕ
  /-- `bitsPerLevel`. -/
  bitsPerLevel : ℕ
  bitsPerLevel_pos : 0 < bitsPerLevel
  vaddrBits_eq : vaddrBits = 3 * bitsPerLevel + pgIdxBits
  pgIdxBits_eq : pgIdxBits = bitsPerLevel + 3
  pgIdxBits_lt : pgIdxBits < paddrBits

namespace AddressSpaceConfiguration

variable (c : AddressSpaceConfiguration)

def ppnBits : ℕ := c.paddrBits - c.pgIdxBits

def vpnBits : ℕ := c.vaddrBits - c.pgIdxBits

/-- `maxaddrbits` of the data cache. -/
def maxaddrbits : ℕ := max c.ppnBits (c.vpnBits + 1) + c.pgIdxBits

end AddressSpaceConfiguration

variable {c : AddressSpaceConfiguration} {n : ℕ}

/-! ### The reference -/

/-- The page number in a page table entry or in the page table base register. -/
def AddressSpaceConfiguration.ppn (c : AddressSpaceConfiguration) (pte : ℕ) : ℕ :=
  bits pte (c.paddrBits - 1) c.pgIdxBits

/-- What a translation grants: the permission bits of an entry. -/
def ptePerm (pte : ℕ) : ℕ := bits pte 8 3

/-- A page of a superpage: the number of the superpage above, that of the request below. -/
def superpage (c : AddressSpaceConfiguration) (left ppn vpn : ℕ) : ℕ :=
  (ppn / 2 ^ (c.bitsPerLevel * left) * 2 ^ (c.bitsPerLevel * left) +
    vpn % 2 ^ (c.bitsPerLevel * left)) % 2 ^ c.ppnBits

/-- The entry for `vpn` in a table, with `left` levels below it. -/
def pteAddr (c : AddressSpaceConfiguration) (left table vpn : ℕ) : ℕ :=
  table * 2 ^ c.pgIdxBits + vpn / 2 ^ (c.bitsPerLevel * left) % 2 ^ c.bitsPerLevel * 8

/-- **The reference walk** from a table with `left` levels below it: the page and the permissions,
or nothing if there is no translation. -/
def walk (c : AddressSpaceConfiguration) (mem : ℕ → ℕ) (vpn : ℕ) : ℕ → ℕ → Option (ℕ × ℕ)
  | left, table =>
    let pte := mem (pteAddr c left table vpn)
    if !pte.testBit 0 then none
    else if !pte.testBit 1 then some (superpage c left (c.ppn pte) vpn, ptePerm pte)
    else match left with
      | 0 => none
      | left + 1 => walk c mem vpn left (c.ppn pte)

theorem walk_eq (mem : ℕ → ℕ) (vpn left table : ℕ) : walk c mem vpn left table =
    if !(mem (pteAddr c left table vpn)).testBit 0 then none
    else if !(mem (pteAddr c left table vpn)).testBit 1 then
      some (superpage c left (c.ppn (mem (pteAddr c left table vpn))) vpn,
        ptePerm (mem (pteAddr c left table vpn)))
    else match left with
      | 0 => none
      | left' + 1 => walk c mem vpn left' (c.ppn (mem (pteAddr c left table vpn))) := by
  cases left <;> rfl

/-! ### The walker -/

inductive PTWState
  | sReady | sReq | sWait | sDone | sError
  deriving DecidableEq, Repr

structure PTW (n : ℕ) where
  state : PTWState
  count : ℕ
  rReqVpn : ℕ
  rReqDest : Fin n
  rPte : ℕ
  /-- The register of the arbiter. -/
  lastGrant : Fin n

/-- What the walker sees in one cycle. -/
structure PTWInput (n : ℕ) where
  reqValid : Fin n → Bool
  reqBits : Fin n → ℕ
  memReqReady : Bool
  memRespValid : Bool
  memRespNack : Bool
  memRespData : ℕ
  ptbr : ℕ

structure PTWResp where
  error : Bool
  ppn : ℕ
  perm : ℕ

namespace PTW

variable (c) (s : PTW n) (i : PTWInput n)

def levels : ℕ := 3

/-- `vpn_idx`. -/
def vpnIdx : ℕ :=
  bits (s.rReqVpn / 2 ^ ((levels - s.count - 1) * c.bitsPerLevel)) (c.bitsPerLevel - 1) 0

/-- `io.mem.req.bits.addr`, cut to the width of the port. -/
def memReqAddr : ℕ :=
  cat (c.ppn s.rPte) c.bitsPerLevel (vpnIdx c s) * 8 % 2 ^ c.maxaddrbits

def memReqValid : Bool := decide (s.state = .sReq)

/-- `resp_ppn`, cut to the width of the port. -/
def respPpn : ℕ :=
  let rRespPpn := memReqAddr c s / 2 ^ c.pgIdxBits
  let low := c.bitsPerLevel * (levels - s.count - 1)
  (if s.count < levels - 1 then cat (rRespPpn / 2 ^ low) low (bits s.rReqVpn (low - 1) 0)
    else rRespPpn) % 2 ^ c.ppnBits

/-- The response to requestor `k`, if `valid` is up. -/
def resp (k : Fin n) : Option PTWResp :=
  if (s.state = .sDone ∨ s.state = .sError) ∧ s.rReqDest = k then
    some ⟨decide (s.state = .sError) || decide (s.state = .sWait), respPpn c s, ptePerm s.rPte⟩
  else none

/-- Which request the arbiter offers. -/
def chosen : Option (Fin n) := RRArbiter.chosen s.lastGrant i.reqValid

/-- The request of requestor `k` is accepted. -/
def accepts (k : Fin n) : Bool :=
  RRArbiter.fires s.lastGrant i.reqValid (decide (s.state = .sReady)) k

def nextState : PTWState :=
  match s.state with
  | .sReady => if (s.chosen i).isSome then .sReq else .sReady
  | .sReq => if i.memReqReady then .sWait else .sReq
  | .sWait =>
    if i.memRespValid then
      if i.memRespData.testBit 0 then
        if !i.memRespData.testBit 1 then .sDone
        else if s.count < levels - 1 then .sReq
        else .sError
      else .sError
    else if i.memRespNack then .sReq
    else .sWait
  | .sDone => .sReady
  | .sError => .sReady

def nextCount : ℕ :=
  match s.state with
  | .sReady => 0
  | .sWait =>
    if i.memRespValid && i.memRespData.testBit 0 && i.memRespData.testBit 1 &&
      decide (s.count < levels - 1) then s.count + 1 else s.count
  | _ => s.count

/-- `arb.io.out.fire()`, with the request. -/
def fires : Option (Fin n) := if s.state = .sReady then s.chosen i else none

def nextPte : ℕ :=
  if i.memRespValid then i.memRespData
  else if (s.fires i).isSome then
    cat (c.ppn i.ptbr) c.pgIdxBits (bits i.memRespData (c.pgIdxBits - 1) 0)
  else s.rPte

/-- One cycle. -/
def next : PTW n where
  state := s.nextState i
  count := s.nextCount i
  rReqVpn := ((s.fires i).map i.reqBits).getD s.rReqVpn
  rReqDest := (s.fires i).getD s.rReqDest
  rPte := nextPte c s i
  lastGrant := (s.fires i).getD s.lastGrant

/-- The memory answers only a request that is on its way, and with the word at its address. -/
def Answers (mem : ℕ → ℕ) : Prop :=
  i.memRespValid = true → s.state = .sWait ∧ i.memRespData = mem (memReqAddr c s)

/-- The walker in front of a memory that does not change during a walk. -/
def machine (c : AddressSpaceConfiguration) (n : ℕ) (mem : ℕ → ℕ) :
    Machine (PTW n) (PTWInput n) where
  init s := s.state = .sReady
  step s i s' := Answers c s i mem ∧ s' = next c s i

/-! ### Addresses and page numbers -/

variable {c s i}

theorem ppn_lt (pte : ℕ) : c.ppn pte < 2 ^ c.ppnBits := by
  have hlt := bits_lt pte (c.paddrBits - 1) c.pgIdxBits
  have hpos := c.pgIdxBits_lt
  rwa [show c.paddrBits - 1 + 1 - c.pgIdxBits = c.ppnBits by
    rw [AddressSpaceConfiguration.ppnBits]; omega] at hlt

theorem vpnIdx_eq : vpnIdx c s =
    s.rReqVpn / 2 ^ (c.bitsPerLevel * (2 - s.count)) % 2 ^ c.bitsPerLevel := by
  have hleft : levels - s.count - 1 = 2 - s.count := by
    rw [levels]
    omega
  rw [vpnIdx, bits_low c.bitsPerLevel_pos, hleft, Nat.mul_comm]

theorem index_lt (vpn left : ℕ) :
    vpn / 2 ^ (c.bitsPerLevel * left) % 2 ^ c.bitsPerLevel * 8 < 2 ^ c.pgIdxBits := by
  have hlt := Nat.mod_lt (vpn / 2 ^ (c.bitsPerLevel * left)) (Nat.two_pow_pos c.bitsPerLevel)
  rw [c.pgIdxBits_eq, pow_add]
  omega

theorem memReqAddr_eq : memReqAddr c s = pteAddr c (2 - s.count) (c.ppn s.rPte) s.rReqVpn := by
  have hidx := index_lt (c := c) s.rReqVpn (2 - s.count)
  have hppn := ppn_lt (c := c) s.rPte
  have haddr : cat (c.ppn s.rPte) c.bitsPerLevel (vpnIdx c s) * 8 =
      pteAddr c (2 - s.count) (c.ppn s.rPte) s.rReqVpn := by
    rw [cat, vpnIdx_eq, pteAddr, c.pgIdxBits_eq, pow_add]
    ring
  rw [memReqAddr, haddr]
  refine Nat.mod_eq_of_lt ?_
  have hwide : c.ppnBits + c.pgIdxBits ≤ c.maxaddrbits :=
    Nat.add_le_add_right (le_max_left _ _) _
  refine Nat.lt_of_lt_of_le ?_ (Nat.pow_le_pow_right (by omega) hwide)
  exact cat_lt hppn hidx

theorem memReqAddr_div : memReqAddr c s / 2 ^ c.pgIdxBits = c.ppn s.rPte := by
  rw [memReqAddr_eq]
  exact cat_div (index_lt s.rReqVpn (2 - s.count))

theorem respPpn_eq (hcount : s.count ≤ 2) :
    respPpn c s = superpage c (2 - s.count) (c.ppn s.rPte) s.rReqVpn := by
  rw [respPpn, memReqAddr_div, superpage]
  congr 1
  by_cases hlt : s.count < levels - 1
  · have hleft : levels - s.count - 1 = 2 - s.count := by
      rw [levels]
      omega
    have hpos : 0 < c.bitsPerLevel * (2 - s.count) := by
      have hlevels : levels = 3 := rfl
      exact Nat.mul_pos c.bitsPerLevel_pos (by omega)
    rw [if_pos hlt, hleft, bits_low hpos]
    rfl
  · have htwo : s.count = 2 := by
      have hlevels : levels = 3 := rfl
      omega
    rw [if_neg hlt, htwo]
    simp [Nat.mod_one]

/-! ### One walk -/

/-- What a requestor may be told. -/
def Translates (c : AddressSpaceConfiguration) (mem : ℕ → ℕ) (vpn ptbr : ℕ) (r : PTWResp) : Prop :=
  match walk c mem vpn 2 (c.ppn ptbr) with
  | some (ppn, perm) => r.error = false ∧ r.ppn = ppn ∧ r.perm = perm
  | none => r.error = true

variable {mem : ℕ → ℕ} {vpn ptbr : ℕ} {k : Fin n}

/-- The walker is in the middle of a walk. -/
structure Follows (c : AddressSpaceConfiguration) (mem : ℕ → ℕ) (vpn ptbr : ℕ) (k : Fin n)
    (s : PTW n) : Prop where
  state : s.state = .sReq ∨ s.state = .sWait
  count : s.count ≤ 2
  reqVpn : s.rReqVpn = vpn
  reqDest : s.rReqDest = k
  remains : walk c mem vpn (2 - s.count) (c.ppn s.rPte) = walk c mem vpn 2 (c.ppn ptbr)

/-- The walker is at the end of a walk. -/
structure Ends (c : AddressSpaceConfiguration) (mem : ℕ → ℕ) (vpn ptbr : ℕ) (k : Fin n)
    (s : PTW n) : Prop where
  state : s.state = .sDone ∨ s.state = .sError
  reqDest : s.rReqDest = k
  translates : Translates c mem vpn ptbr ⟨decide (s.state = .sError), respPpn c s, ptePerm s.rPte⟩

theorem Ends.resp (h : s.Ends c mem vpn ptbr k) :
    ∃ r, PTW.resp c s k = some r ∧ Translates c mem vpn ptbr r := by
  refine ⟨_, if_pos ⟨h.state, h.reqDest⟩, ?_⟩
  have hwait : decide (s.state = .sWait) = false := by
    rcases h.state with hstate | hstate <;> rw [hstate] <;> rfl
  rw [hwait, Bool.or_false]
  exact h.translates

theorem fires_of_busy (h : s.state ≠ .sReady) : s.fires i = none := if_neg h

theorem follows_of_accepts (hanswers : Answers c s i mem) (h : s.accepts i k = true) :
    (next c s i).Follows c mem (i.reqBits k) i.ptbr k := by
  obtain ⟨hready, hchosen⟩ := RRArbiter.fires_eq_true.mp h
  have hstate := of_decide_eq_true hready
  have hfires : s.fires i = some k := by
    rw [fires, if_pos hstate]
    exact hchosen
  have hnoresp : i.memRespValid = false := by
    rw [← Bool.not_eq_true]
    intro hvalid
    rw [(hanswers hvalid).1] at hstate
    cases hstate
  refine ⟨.inl ?_, ?_, ?_, ?_, ?_⟩
  · show s.nextState i = .sReq
    have hsome : (s.chosen i).isSome = true := by
      rw [PTW.chosen, hchosen]
      rfl
    simp only [nextState, hstate, hsome, if_true]
  · show s.nextCount i ≤ 2
    simp [nextCount, hstate]
  · show ((s.fires i).map i.reqBits).getD s.rReqVpn = _
    rw [hfires]
    rfl
  · show (s.fires i).getD s.rReqDest = k
    rw [hfires]
    rfl
  · have hcount : (next c s i).count = 0 := by
      show s.nextCount i = 0
      simp [nextCount, hstate]
    have hpte : (next c s i).rPte =
        cat (c.ppn i.ptbr) c.pgIdxBits (bits i.memRespData (c.pgIdxBits - 1) 0) := by
      show nextPte c s i = _
      rw [nextPte, hnoresp, hfires]
      rfl
    have hlow : bits i.memRespData (c.pgIdxBits - 1) 0 < 2 ^ c.pgIdxBits := by
      have hpos : 0 < c.pgIdxBits := by
        rw [c.pgIdxBits_eq]
        omega
      rw [bits_low hpos]
      exact Nat.mod_lt _ (Nat.two_pow_pos _)
    have hppn : c.ppn (next c s i).rPte = c.ppn i.ptbr := by
      rw [hpte]
      have hlt := c.pgIdxBits_lt
      have hsize := ppn_lt (c := c) i.ptbr
      rw [AddressSpaceConfiguration.ppn, bits, cat_div hlow]
      refine Nat.mod_eq_of_lt ?_
      rwa [show c.paddrBits - 1 + 1 - c.pgIdxBits = c.ppnBits by
        rw [AddressSpaceConfiguration.ppnBits]; omega]
    rw [hcount, hppn]

theorem Follows.next_of_waits (h : s.Follows c mem vpn ptbr k) (hwait : i.memRespValid = false) :
    (next c s i).Follows c mem vpn ptbr k ∧ (next c s i).count = s.count := by
  have hbusy : s.state ≠ .sReady := by
    rcases h.state with hstate | hstate <;> rw [hstate] <;> exact PTWState.noConfusion
  have hcount : (next c s i).count = s.count := by
    show s.nextCount i = _
    rcases h.state with hstate | hstate
    · simp only [nextCount, hstate]
    · simp only [nextCount, hstate, hwait, Bool.false_and, Bool.false_eq_true, if_false]
  have hpte : (next c s i).rPte = s.rPte := by
    show nextPte c s i = _
    rw [nextPte, hwait, fires_of_busy hbusy]
    rfl
  refine ⟨⟨?_, ?_, ?_, ?_, ?_⟩, hcount⟩
  · show s.nextState i = .sReq ∨ s.nextState i = .sWait
    rcases h.state with hstate | hstate
    · simp only [nextState, hstate]
      split
      · exact .inr rfl
      · exact .inl rfl
    · simp only [nextState, hstate, hwait, Bool.false_eq_true, if_false]
      split
      · exact .inl rfl
      · exact .inr rfl
  · rw [hcount]
    exact h.count
  · show ((s.fires i).map i.reqBits).getD s.rReqVpn = vpn
    rw [fires_of_busy hbusy]
    exact h.reqVpn
  · show (s.fires i).getD s.rReqDest = k
    rw [fires_of_busy hbusy]
    exact h.reqDest
  · rw [hcount, hpte]
    exact h.remains

/-- **An answer from memory is one level of the reference**: the walk ends or goes one level
down. -/
theorem Follows.next_of_answer (h : s.Follows c mem vpn ptbr k) (hanswers : Answers c s i mem)
    (hvalid : i.memRespValid = true) : (next c s i).Ends c mem vpn ptbr k ∨
      (next c s i).Follows c mem vpn ptbr k ∧ (next c s i).count = s.count + 1 := by
  obtain ⟨hstate, hdata⟩ := hanswers hvalid
  have hbusy : s.state ≠ .sReady := by
    rw [hstate]
    exact PTWState.noConfusion
  have hvpn : (next c s i).rReqVpn = vpn := by
    show ((s.fires i).map i.reqBits).getD s.rReqVpn = vpn
    rw [fires_of_busy hbusy]
    exact h.reqVpn
  have hdest : (next c s i).rReqDest = k := by
    show (s.fires i).getD s.rReqDest = k
    rw [fires_of_busy hbusy]
    exact h.reqDest
  have hpte : (next c s i).rPte = i.memRespData := by
    show nextPte c s i = _
    rw [nextPte, hvalid]
    rfl
  have hnext : (next c s i).state = if i.memRespData.testBit 0 then
      if !i.memRespData.testBit 1 then .sDone
      else if s.count < levels - 1 then .sReq
      else .sError
    else .sError := by
    show s.nextState i = _
    simp only [nextState, hstate, hvalid, if_true]
  have hcount : (next c s i).count = if i.memRespData.testBit 0 && i.memRespData.testBit 1 &&
      decide (s.count < levels - 1) then s.count + 1 else s.count := by
    show s.nextCount i = _
    simp only [nextCount, hstate, hvalid, Bool.true_and]
  have hentry : mem (pteAddr c (2 - s.count) (c.ppn s.rPte) vpn) = i.memRespData := by
    rw [hdata, memReqAddr_eq, h.reqVpn]
  have hremains := h.remains
  rw [walk_eq, hentry] at hremains
  by_cases hvalidBit : i.memRespData.testBit 0 = true
  swap
  · -- an invalid entry
    rw [Bool.not_eq_true] at hvalidBit
    rw [hvalidBit] at hremains hnext
    refine .inl ⟨.inr hnext, hdest, ?_⟩
    rw [Translates, ← hremains]
    exact decide_eq_true hnext
  rw [hvalidBit] at hremains hnext hcount
  by_cases hpointer : i.memRespData.testBit 1 = true
  swap
  · -- a leaf
    rw [Bool.not_eq_true] at hpointer
    rw [hpointer] at hremains hnext hcount
    refine .inl ⟨.inl hnext, hdest, ?_⟩
    have hcount' : (next c s i).count = s.count := hcount
    rw [Translates, ← hremains]
    refine ⟨decide_eq_false ?_, ?_, ?_⟩
    · rw [hnext]
      exact PTWState.noConfusion
    · show respPpn c (next c s i) = _
      rw [respPpn_eq (hcount'.trans_le h.count), hcount', hpte, hvpn]
    · show ptePerm (next c s i).rPte = _
      rw [hpte]
  rw [hpointer] at hremains hnext hcount
  by_cases hlevel : s.count < levels - 1
  · -- a pointer to the next table
    have hleft : 2 - s.count = 2 - (s.count + 1) + 1 := by
      have hlevels : levels = 3 := rfl
      omega
    have hcount' : (next c s i).count = s.count + 1 := by
      rw [hcount, decide_eq_true hlevel]
      rfl
    rw [hleft] at hremains
    refine .inr ⟨⟨.inl ?_, ?_, hvpn, hdest, ?_⟩, hcount'⟩
    · rw [hnext]
      exact if_pos hlevel
    · have hlevels : levels = 3 := rfl
      omega
    · rw [hcount', hpte]
      exact hremains
  · -- a pointer at the last level
    have hstate' : (next c s i).state = .sError := by
      rw [hnext]
      exact if_neg hlevel
    have hleft : 2 - s.count = 0 := by
      have hlevels : levels = 3 := rfl
      omega
    rw [hleft] at hremains
    refine .inl ⟨.inr hstate', hdest, ?_⟩
    rw [Translates, ← hremains]
    exact decide_eq_true hstate'

/-! ### Runs -/

variable {st : ℕ → PTW n} {lab : ℕ → PTWInput n}

/-- The reads of the walker do not go unanswered for ever. -/
def Answered (st : ℕ → PTW n) (lab : ℕ → PTWInput n) : Prop :=
  ∀ t, (st t).state = .sReq ∨ (st t).state = .sWait → ∃ t', t ≤ t' ∧ (lab t').memRespValid = true

/-- From `t₀` on, the walker has been at the request of `k` that it accepted at `t₀`. -/
def AtWork (c : AddressSpaceConfiguration) (mem : ℕ → ℕ) (st : ℕ → PTW n) (lab : ℕ → PTWInput n)
    (t₀ : ℕ) (k : Fin n) (t : ℕ) : Prop :=
  (st t₀).accepts (lab t₀) k = true ∧
    ∀ u, t₀ < u → u < t → (st u).Follows c mem ((lab t₀).reqBits k) (lab t₀).ptbr k

/-- The request of `k` that was accepted at `t₀` is answered at `t`, as the reference says, and
nothing else is accepted or answered in between. -/
def AnsweredAt (c : AddressSpaceConfiguration) (mem : ℕ → ℕ) (st : ℕ → PTW n)
    (lab : ℕ → PTWInput n) (t₀ : ℕ) (k : Fin n) (t : ℕ) (r : PTWResp) : Prop :=
  t₀ < t ∧ (st t₀).accepts (lab t₀) k = true ∧ (st t).resp c k = some r ∧
    Translates c mem ((lab t₀).reqBits k) (lab t₀).ptbr r ∧
    ∀ u, t₀ < u → u < t → ∀ j, (st u).accepts (lab u) j = false ∧ (st u).resp c j = none

theorem Follows.quiet (h : s.Follows c mem vpn ptbr k) (j : Fin n) :
    s.accepts i j = false ∧ s.resp c j = none := by
  constructor
  · rw [← Bool.not_eq_true, accepts, RRArbiter.fires_eq_true]
    rintro ⟨hready, -⟩
    have hstate := of_decide_eq_true hready
    rcases h.state with hs | hs <;> rw [hs] at hstate <;> cases hstate
  · refine if_neg ?_
    rintro ⟨hstate, -⟩
    rcases h.state with hs | hs <;> rw [hs] at hstate <;> rcases hstate with h | h <;> cases h

theorem AtWork.answeredAt {t₀ t : ℕ} (h : AtWork c mem st lab t₀ k t) (hlt : t₀ < t)
    (hends : (st t).Ends c mem ((lab t₀).reqBits k) (lab t₀).ptbr k) :
    ∃ r, AnsweredAt c mem st lab t₀ k t r := by
  obtain ⟨r, hresp, htranslates⟩ := hends.resp
  exact ⟨r, hlt, h.1, hresp, htranslates, fun u hu hut j => (h.2 u hu hut).quiet j⟩

theorem AtWork.succ {t₀ t : ℕ} (h : AtWork c mem st lab t₀ k t)
    (hfollows : (st t).Follows c mem ((lab t₀).reqBits k) (lab t₀).ptbr k) :
    AtWork c mem st lab t₀ k (t + 1) := by
  refine ⟨h.1, ?_⟩
  intro u hu hut
  rcases Nat.lt_succ_iff_lt_or_eq.mp hut with hlt | rfl
  · exact h.2 u hu hlt
  · exact hfollows

/-- A walker that is not ready is at work on a request or has just finished it. -/
theorem ready_or_atWork (h : (machine c n mem).Run st lab) (t : ℕ) : (st t).state = .sReady ∨
    ∃ t₀ k, t₀ < t ∧ AtWork c mem st lab t₀ k t ∧
      ((st t).Follows c mem ((lab t₀).reqBits k) (lab t₀).ptbr k ∨
        (st t).Ends c mem ((lab t₀).reqBits k) (lab t₀).ptbr k) := by
  induction t with
  | zero => exact .inl h.init
  | succ t ih =>
    obtain ⟨hanswers, hnext⟩ := h.step t
    rcases ih with hready | ⟨t₀, k, hlt, hwork, hfollows | hends⟩
    · cases hchosen : (st t).chosen (lab t) with
      | none =>
        left
        rw [hnext]
        show (st t).nextState (lab t) = .sReady
        simp only [nextState, hready, hchosen, Option.isSome_none, Bool.false_eq_true, if_false]
      | some k =>
        have haccepts : (st t).accepts (lab t) k = true :=
          RRArbiter.fires_eq_true.mpr ⟨decide_eq_true hready, hchosen⟩
        refine .inr ⟨t, k, Nat.lt_succ_self t, ⟨haccepts, ?_⟩, .inl ?_⟩
        · intro u hu hut
          omega
        · rw [hnext]
          exact follows_of_accepts hanswers haccepts
    · refine .inr ⟨t₀, k, Nat.lt_succ_of_lt hlt, hwork.succ hfollows, ?_⟩
      rw [hnext]
      cases hvalid : (lab t).memRespValid with
      | false => exact .inl (hfollows.next_of_waits hvalid).1
      | true =>
        rcases hfollows.next_of_answer hanswers hvalid with hend | ⟨hfollow, -⟩
        · exact .inr hend
        · exact .inl hfollow
    · left
      rw [hnext]
      show (st t).nextState (lab t) = .sReady
      rcases hends.state with hs | hs <;> simp only [nextState, hs]

/-- One level of a walk, up to the answer that is `d` cycles away. -/
theorem Follows.level (h : (machine c n mem).Run st lab) (d : ℕ) : ∀ t,
    (st t).Follows c mem vpn ptbr k → (lab (t + d)).memRespValid = true →
    ∃ t', t < t' ∧ (∀ u, t ≤ u → u < t' → (st u).Follows c mem vpn ptbr k) ∧
      ((st t').Ends c mem vpn ptbr k ∨
        (st t').Follows c mem vpn ptbr k ∧ (st t').count = (st t).count + 1) := by
  induction d with
  | zero =>
    intro t hfollows hvalid
    obtain ⟨hanswers, hnext⟩ := h.step t
    refine ⟨t + 1, Nat.lt_succ_self t, ?_, ?_⟩
    · intro u hu hut
      rwa [show u = t by omega]
    · rw [hnext]
      exact hfollows.next_of_answer hanswers hvalid
  | succ d ih =>
    intro t hfollows hlater
    obtain ⟨hanswers, hnext⟩ := h.step t
    cases hvalid : (lab t).memRespValid with
    | true =>
      refine ⟨t + 1, Nat.lt_succ_self t, ?_, ?_⟩
      · intro u hu hut
        rwa [show u = t by omega]
      · rw [hnext]
        exact hfollows.next_of_answer hanswers hvalid
    | false =>
      obtain ⟨hfollows', hcount⟩ := hfollows.next_of_waits (c := c) hvalid
      rw [← hnext] at hfollows' hcount
      obtain ⟨t', ht', hbetween, hend⟩ := ih (t + 1) hfollows' (by rwa [Nat.add_right_comm])
      refine ⟨t', by omega, ?_, hcount ▸ hend⟩
      intro u hu hut
      rcases Nat.eq_or_lt_of_le hu with rfl | hlt
      · exact hfollows
      · exact hbetween u hlt hut

/-- A walk comes to its end. The induction is on the levels that are left. -/
theorem Follows.ends (h : (machine c n mem).Run st lab) (hanswered : Answered st lab) (left : ℕ) :
    ∀ t, (st t).Follows c mem vpn ptbr k → (st t).count + left = 3 →
    ∃ t', t < t' ∧ (∀ u, t ≤ u → u < t' → (st u).Follows c mem vpn ptbr k) ∧
      (st t').Ends c mem vpn ptbr k := by
  induction left with
  | zero =>
    intro t hfollows hcount
    have hle := hfollows.count
    omega
  | succ left ih =>
    intro t hfollows hcount
    obtain ⟨t₁, ht₁, hvalid⟩ := hanswered t hfollows.state
    obtain ⟨d, rfl⟩ := Nat.exists_eq_add_of_le ht₁
    obtain ⟨t', ht', hbetween, hend | ⟨hfollows', hcount'⟩⟩ := Follows.level h d t hfollows hvalid
    · exact ⟨t', ht', hbetween, hend⟩
    · obtain ⟨t'', ht'', hbetween', hend⟩ := ih t' hfollows' (by omega)
      refine ⟨t'', ht'.trans ht'', ?_, hend⟩
      intro u hu hut
      by_cases hlt : u < t'
      · exact hbetween u hu hlt
      · exact hbetween' u (Nat.le_of_not_lt hlt) hut

/-- **The walker is the reference walk.** Whatever the memory holds, however late it answers and
however often it refuses a read, every response answers the one request that the walker last
accepted, as the reference does; and if the memory does not refuse for ever, every request it
accepts gets its response. -/
theorem ptw_eq_walk (c : AddressSpaceConfiguration) (n : ℕ) (mem : ℕ → ℕ) :
    (∀ st lab, (machine c n mem).Run st lab →
      ∀ t k r, (st t).resp c k = some r → ∃ t₀, AnsweredAt c mem st lab t₀ k t r) ∧
    ∀ st lab, (machine c n mem).Run st lab → Answered st lab →
      ∀ t₀ k, (st t₀).accepts (lab t₀) k = true → ∃ t r, AnsweredAt c mem st lab t₀ k t r := by
  constructor
  · intro st lab h t k r hresp
    rcases ready_or_atWork h t with hready | ⟨t₀, k', hlt, hwork, hfollows | hends⟩
    · rw [PTW.resp, if_neg] at hresp
      · cases hresp
      · rintro ⟨hstate, -⟩
        rw [hready] at hstate
        rcases hstate with h | h <;> cases h
    · rw [(hfollows.quiet (i := lab t) k).2] at hresp
      cases hresp
    · obtain ⟨r', hanswered⟩ := hwork.answeredAt hlt hends
      have hk : k' = k := by
        by_contra hne
        rw [PTW.resp, if_neg] at hresp
        · cases hresp
        · rintro ⟨-, hdest⟩
          exact hne (hends.reqDest.symm.trans hdest)
      subst hk
      have hr : r' = r := Option.some.inj (hanswered.2.2.1.symm.trans hresp)
      exact ⟨t₀, hr ▸ hanswered⟩
  · intro st lab h hanswered t₀ k haccepts
    obtain ⟨hanswers, hnext⟩ := h.step t₀
    have hfollows := follows_of_accepts (c := c) hanswers haccepts
    rw [← hnext] at hfollows
    have hcount := hfollows.count
    obtain ⟨t, hlt, hbetween, hends⟩ := Follows.ends h hanswered (3 - (st (t₀ + 1)).count) (t₀ + 1)
      hfollows (by omega)
    obtain ⟨r, hr⟩ := AtWork.answeredAt ⟨haccepts, fun u hu hut => hbetween u hu hut⟩
      (Nat.lt_of_succ_lt hlt) hends
    exact ⟨t, r, hr⟩

end PTW

end RiscvSoc
