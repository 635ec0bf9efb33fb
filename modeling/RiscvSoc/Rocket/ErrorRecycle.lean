import RiscvSoc.Rocket.HellaCacheECC
import RiscvSoc.Rocket.StoreToLoad

/-!
# A correctable error

When a request hits a double word with a flipped bit, the data cache sends it through the arrays
again. That would do, were it not that the registers of the first stage alone do not make a request:
`s1_valid` is up only after the processor has issued one, and in the cycle of the error it cannot.
The request is not answered, and it does not come back.

So the errors that are invisible are those that no hit meets, and those are. The argument runs the
cache next to the one of `RiscvSoc.Rocket.HellaCache`, which has no errors, on the same inputs. As
long as no hit reads a flipped bit the two have the same registers, and each double word of the one
is within a bit of the other's (`Agrees`). A store replaces the code word, and the flipped bit with
it.

For the other half the requests are numbered as they are accepted, and each number follows its
request through the stages. A number that met an error is behind those of all requests that can
still be answered (`Ordered`).

## What is asked of the rest

Every load and store that is not refused hits, and at most one bit of each stored code word is
flipped at any time. The second is not needed to see that a request is lost.
-/

namespace RiscvSoc

/-- The requests by their numbers. -/
structure ECCLog where
  /-- How many have been accepted. -/
  count : ℕ
  /-- Whose data the registers of the first two stages have. -/
  who1 : ℕ
  who2 : ℕ
  /-- The hits that met an error. -/
  met : List ℕ
  answered : List ℕ

namespace HellaCacheECC

open HellaCache CorrectingCode

variable {P : CoherencePolicy} [DecidableEq P.ClientState] {c : HellaCacheConfig}
variable (code : CorrectingCode) (md : MetaDataArray P c)

/-- A request that is not refused hits, on a double word with an error. -/
def meetsError (e : HellaCacheECC P c) (i : ECCInput c) : Bool :=
  (e.decoded code).respValid i.toHellaInput && e.s2DataCorrectable code

def logNext (e : HellaCacheECC P c) (i : ECCInput c) (g : ECCLog) : ECCLog where
  count := if i.reqValid && e.reqReady code i then g.count + 1 else g.count
  who1 := if e.s2Recycle code then g.who2 else if i.reqValid then g.count else g.who1
  who2 := if e.s1ClkEn then g.who1 else g.who2
  met := g.met ++ if e.meetsError code i then [g.who2] else []
  answered := g.answered ++ if e.respValid code i then [g.who2] else []

/-- The two caches do the same, and each double word the one has is within a bit of the other's. -/
structure Agrees (e : HellaCacheECC P c) (s : HellaCache P c) : Prop where
  s1Valid : e.s1Valid = s.s1Valid
  s1Req : e.s1Req = s.s1Req
  s1ClkEn : e.s1ClkEn = s.s1ClkEn
  s1Recycled : e.s1Recycled = false
  s2Valid : e.s2Valid = s.s2Valid
  s2Req : e.s2Req = s.s2Req
  s2NackHit : e.s2NackHit = s.s2NackHit
  s2TagMatchWay : e.s2TagMatchWay = s.s2TagMatchWay
  s2State : e.s2State = s.s2State
  s2StoreBypass : e.s2StoreBypass = s.s2StoreBypass
  s2StoreBypassData : e.s2StoreBypassData = s.s2StoreBypassData
  s2RecycleNext : e.s2RecycleNext = false
  s3Valid : e.s3Valid = s.s3Valid
  s3 : s.s3Valid = true → e.s3Req = s.s3Req ∧ e.s3Way = s.s3Way
  s4Valid : e.s4Valid = s.s4Valid
  s4Req : e.s4Req = s.s4Req
  lrscCount : e.lrscCount = s.lrscCount
  lrscAddr : e.lrscAddr = s.lrscAddr
  metaSet : e.metaSet = s.metaSet
  readIdx : e.readIdx = s.readIdx
  /-- The arrays were read for the first stage. -/
  place : s.s1Valid = true → s.s1ClkEn = true ∧ s.metaSet = c.set s.s1Req.addr ∧
    s.readIdx = c.wordIdx s.s1Req.addr
  array : ∀ a w, Holds md a w →
    code.Near (e.data w (c.row a) (c.wordIdx a)) (s.data w (c.row a) (c.wordIdx a))
  first : s.s1Valid = true → ∀ a w, Holds md a w → c.row a = c.row s.s1Req.addr →
    c.wordIdx a = c.wordIdx s.s1Req.addr →
    code.Near (e.readData w (c.wordIdx a)) (s.readData w (c.wordIdx a))
  second : s.s2Valid = true → ∀ w, s.s2TagMatchWay w = true →
    code.Near (e.s2Data w s.s2WordIdx) (s.s2Data w s.s2WordIdx)

/-- The cache, the one without errors, and the numbers. -/
structure Twins (P : CoherencePolicy) (c : HellaCacheConfig) where
  ecc : HellaCacheECC P c
  plain : HellaCache P c
  log : ECCLog

/-- The two caches on the same inputs, from nothing under way. -/
def lockstep : Machine (Twins P c) (ECCInput c) where
  init x := Idle x.plain ∧ Agrees code md x.ecc x.plain ∧ x.log = ⟨0, 0, 0, [], []⟩
  step x i x' :=
    x' = ⟨x.ecc.next code md i, x.plain.next md i.toHellaInput, logNext code x.ecc i x.log⟩

/-- Loads and stores hit, and no code word gets a second flipped bit. -/
structure AtMostOneFlip (x : Twins P c) (i : ECCInput c) : Prop where
  hits : x.plain.s2Valid = true → x.plain.s2NackHit = false →
    (x.plain.s2Req.cmd.isRead || x.plain.s2Req.cmd.isWrite) = true → x.plain.s2Hit = true
  array : ∀ a w, Holds md a w →
    code.Near ((x.ecc.next code md i).data w (c.row a) (c.wordIdx a))
      ((x.plain.next md i.toHellaInput).data w (c.row a) (c.wordIdx a))
  duringWrite : code.Near i.codeDuringWrite i.readDuringWrite

/-- What a hit reads has no flipped bit. -/
def NoErrorHit (e : HellaCacheECC P c) : Prop :=
  e.s2Valid = true → (e.decoded code).s2Hit = true → e.s2DataCorrectable code = false

/-! ### A request that met an error -/

section Lost

variable {code md} {e : HellaCacheECC P c} {i : ECCInput c} {g : ECCLog}

/-- Whatever is still to be answered has a later number than all that is settled. -/
structure Ordered (e : HellaCacheECC P c) (g : ECCLog) : Prop where
  apart : ∀ k ∈ g.met, k ∉ g.answered
  settled : ∀ k ∈ g.met ++ g.answered, k < g.count ∧ (e.s1Valid = true → k < g.who1) ∧
    (e.s2Valid = true → k < g.who2)
  first : e.s1Valid = true → e.s1ClkEn = true ∧ g.who1 < g.count
  second : e.s2Valid = true → g.who2 < g.count ∧ (e.s1Valid = true → g.who2 < g.who1)

theorem s2Valid_of_respValid (h : (e.decoded code).respValid i.toHellaInput = true) :
    e.s2Valid = true := by
  simp only [HellaCache.respValid, HellaCache.s2ValidMasked, Bool.and_eq_true] at h
  exact h.1.1

/-- What is settled in a cycle is what the second stage has. -/
theorem mem_settled_logNext {k : ℕ}
    (hk : k ∈ (logNext code e i g).met ++ (logNext code e i g).answered) :
    k ∈ g.met ++ g.answered ∨ e.s2Valid = true ∧ k = g.who2 := by
  simp only [logNext, meetsError, HellaCacheECC.respValid, List.mem_append] at hk ⊢
  by_cases hresp : (e.decoded code).respValid i.toHellaInput = true
  · have h2 := s2Valid_of_respValid hresp
    cases hc : e.s2DataCorrectable code <;> simp [hresp, hc] at hk <;> tauto
  · simp [hresp] at hk
    exact .inl hk

/-- A request is accepted in a cycle in which none is sent again. -/
theorem of_next_s1Valid (h1 : (e.next code md i).s1Valid = true) :
    i.reqValid = true ∧ e.reqReady code i = true ∧ e.s2Recycle code = false := by
  obtain ⟨hval, hready⟩ := Bool.and_eq_true_iff.mp h1
  refine ⟨hval, hready, ?_⟩
  rw [reqReady, Bool.and_eq_true, Bool.not_eq_true'] at hready
  exact hready.2

theorem Ordered.next (h : Ordered e g) : Ordered (e.next code md i) (logNext code e i g) := by
  have hcount : g.count ≤ (logNext code e i g).count := by
    simp only [logNext]
    split <;> omega
  have hold : ∀ k ∈ (logNext code e i g).met ++ (logNext code e i g).answered, k < g.count ∧
      (e.s1Valid = true → k < g.who1) := by
    intro k hk
    rcases mem_settled_logNext hk with hk | ⟨h2, rfl⟩
    · exact ⟨(h.settled k hk).1, (h.settled k hk).2.1⟩
    · exact h.second h2
  -- The first stage's next request is a new one.
  have hnew : (e.next code md i).s1Valid = true →
      (logNext code e i g).who1 = g.count ∧ (logNext code e i g).count = g.count + 1 := by
    intro h1
    obtain ⟨hval, hready, hno⟩ := of_next_s1Valid h1
    simp [logNext, hval, hready, hno]
  have hmove : (e.next code md i).s2Valid = true →
      e.s1Valid = true ∧ (logNext code e i g).who2 = g.who1 := by
    intro h2
    have h1 : e.s1Valid = true := (Bool.and_eq_true_iff.mp h2).1
    exact ⟨h1, if_pos (h.first h1).1⟩
  constructor
  · intro k hk hans
    simp only [logNext, meetsError, HellaCacheECC.respValid, List.mem_append] at hk hans
    have hfresh : e.s2Valid = true → g.who2 ∉ g.met ++ g.answered := fun h2 hmem =>
      lt_irrefl _ ((h.settled _ hmem).2.2 h2)
    have hapart := h.apart k
    by_cases hresp : (e.decoded code).respValid i.toHellaInput = true
    · have hnot := hfresh (s2Valid_of_respValid hresp)
      rw [List.mem_append, not_or] at hnot
      cases hc : e.s2DataCorrectable code <;> simp [hresp, hc] at hk hans
      · rcases hans with hans | rfl
        · exact hapart hk hans
        · exact hnot.1 hk
      · rcases hk with hk | rfl
        · exact hapart hk hans
        · exact hnot.2 hans
    · simp [hresp] at hk hans
      exact hapart hk hans
  · intro k hk
    obtain ⟨hlt, hfirst⟩ := hold k hk
    refine ⟨by omega, fun h1 => ?_, fun h2 => ?_⟩
    · rw [(hnew h1).1]
      exact hlt
    · rw [(hmove h2).2]
      exact hfirst (hmove h2).1
  · intro h1
    obtain ⟨hval, -, -⟩ := of_next_s1Valid h1
    obtain ⟨hwho, hsucc⟩ := hnew h1
    refine ⟨?_, by omega⟩
    show (i.reqValid || _) = true
    rw [hval, Bool.true_or]
  · intro h2
    obtain ⟨h1, hwho⟩ := hmove h2
    have hlt := (h.first h1).2
    refine ⟨by omega, fun h1' => ?_⟩
    rw [hwho, (hnew h1').1]
    exact hlt

theorem reachable_ordered : ∀ x : Twins P c, (lockstep code md).Reachable x →
    Ordered x.ecc x.log := by
  refine Machine.invariant ?_ ?_
  · rintro ⟨e, s, g⟩ ⟨hidle, hag, rfl⟩
    have h1 : ¬e.s1Valid = true := by rw [hag.s1Valid, hidle.s1]; simp
    have h2 : ¬e.s2Valid = true := by rw [hag.s2Valid, hidle.s2]; simp
    exact ⟨by simp, by simp, fun h => absurd h h1, fun h => absurd h h2⟩
  · rintro ⟨e, s, g⟩ i - - h rfl
    exact h.next

variable {st : ℕ → Twins P c} {lab : ℕ → ECCInput c}

theorem settled_mono (hrun : (lockstep code md).Run st lab) {t u : ℕ} (h : t ≤ u) :
    (st t).log.met ⊆ (st u).log.met ∧ (st t).log.answered ⊆ (st u).log.answered := by
  induction u, h using Nat.le_induction with
  | base => exact ⟨List.Subset.refl _, List.Subset.refl _⟩
  | succ u _ ih =>
    have hstep : st (u + 1) = _ := hrun.step u
    rw [hstep]
    exact ⟨List.subset_append_of_subset_left _ ih.1, List.subset_append_of_subset_left _ ih.2⟩

/-- **A request that met an error is never answered**, neither before nor after. -/
theorem not_answered_of_met (hrun : (lockstep code md).Run st lab) {t k : ℕ}
    (hk : k ∈ (st t).log.met) (u : ℕ) :
    k ∉ (st u).log.answered := by
  intro hans
  have hord := reachable_ordered (st (max t u)) (hrun.reachable _)
  exact hord.apart k ((settled_mono hrun (le_max_left t u)).1 hk)
    ((settled_mono hrun (le_max_right t u)).2 hans)

end Lost

/-! ### No hit on an error -/

section Agreement

variable {code md} {e : HellaCacheECC P c} {s : HellaCache P c} {i : ECCInput c} {g : ECCLog}

omit [DecidableEq P.ClientState] in
/-- The double word that is kept of what the array has read. -/
theorem resp_word {α : Type} (read : Fin (2 ^ c.rowwordbits) → α) {addr : ℕ}
    {idx : Fin (2 ^ c.rowwordbits)} (hidx : idx = c.wordIdx addr) :
    (let k := if c.isNarrowRead then ⟨0, Nat.two_pow_pos _⟩ else c.wordIdx addr
     if c.isNarrowRead && decide (k.val = 0) then read idx else read k)
      = read (c.wordIdx addr) := by
  cases hn : c.isNarrowRead <;> simp [hidx]

namespace Agrees

variable (h : Agrees code md e s)

include h

theorem s2Hit : (e.decoded code).s2Hit = s.s2Hit := by
  simp only [HellaCache.s2Hit, s2HitState, decoded, h.s2TagMatchWay, h.s2State, h.s2Req]

omit [DecidableEq P.ClientState] in
theorem s2ScFail : (e.decoded code).s2ScFail = s.s2ScFail := by
  simp only [HellaCache.s2ScFail, s2LrscAddrMatch, lrscValid, decoded, h.s2Req, h.lrscCount,
    h.lrscAddr]

theorem s2ValidMasked : (e.decoded code).s2ValidMasked i.toHellaInput
    = s.s2ValidMasked i.toHellaInput := by
  have hhit := h.s2Hit
  simp only [HellaCache.s2ValidMasked, s2Nack, hhit]
  simp only [decoded, h.s2Valid, h.s2NackHit]

omit [DecidableEq P.ClientState] in
theorem s2WordIdx : (e.decoded code).s2WordIdx = s.s2WordIdx := by
  simp only [HellaCache.s2WordIdx, decoded, h.s2Req]

omit [DecidableEq P.ClientState] in
theorem s1Addr : (e.decoded code).s1Addr i.toHellaInput = s.s1Addr i.toHellaInput := by
  simp only [HellaCache.s1Addr, decoded, h.s1Req]

omit [DecidableEq P.ClientState] in
theorem s1TagEqWay : (e.decoded code).s1TagEqWay md i.toHellaInput
    = s.s1TagEqWay md i.toHellaInput := by
  funext w
  simp only [HellaCache.s1TagEqWay, h.s1Addr]
  simp only [decoded, h.metaSet]

theorem respValid : (e.decoded code).respValid i.toHellaInput = s.respValid i.toHellaInput := by
  simp only [HellaCache.respValid, h.s2ValidMasked, h.s2Hit]

section

variable (hno : NoErrorHit code e)
include hno

theorem s2Recycle : e.s2Recycle code = false := by
  rw [HellaCacheECC.s2Recycle, h.s2RecycleNext, Bool.or_false, s2RecycleEcc]
  cases h2 : e.s2Valid
  · simp
  cases hhit : (e.decoded code).s2Hit
  · simp
  · simp [hno h2 hhit]

/-- **What a hit works on** is what it would be without errors. -/
theorem s2DataWord (h2 : s.s2Valid = true) (hhit : s.s2Hit = true) :
    (e.decoded code).s2DataWord = s.s2DataWord := by
  have hcorr := hno (h.s2Valid.trans h2) (h.s2Hit.trans hhit)
  have hbypass : (e.decoded code).s2StoreBypass = s.s2StoreBypass := h.s2StoreBypass
  have hdata : (e.decoded code).s2StoreBypassData = s.s2StoreBypassData := h.s2StoreBypassData
  rw [HellaCache.s2DataWord, HellaCache.s2DataWord, hbypass, hdata, h.s2WordIdx]
  split
  · rfl
  rw [HellaCache.s2Hit, s2HitState, muxWay] at hhit
  cases hfind : (List.finRange c.ways).find? s.s2TagMatchWay with
  | none =>
    rw [hfind] at hhit
    cases hhit
  | some w =>
    have hfind' : (List.finRange c.ways).find? e.s2TagMatchWay = some w := by
      rw [h.s2TagMatchWay, hfind]
    have hnear := h.second h2 w (List.find?_some hfind)
    have hmuxed : e.s2DataMuxed = e.s2Data w := by
      rw [HellaCacheECC.s2DataMuxed, muxWay, hfind']
      rfl
    have hdecoded : (e.decoded code).s2DataMuxed = fun k => code.uncorrected (e.s2Data w k) := by
      simp only [HellaCache.s2DataMuxed, muxWay, decoded, hfind', Option.map_some, Option.getD_some]
    have hplain : s.s2DataMuxed = s.s2Data w := by
      simp only [HellaCache.s2DataMuxed, muxWay, hfind, Option.map_some, Option.getD_some]
    rw [s2DataCorrectable, hmuxed, h.s2WordIdx] at hcorr
    rw [hdecoded, hplain]
    exact hnear.uncorrected_eq hcorr

theorem amoaluOut (h2 : s.s2Valid = true) (hhit : s.s2Hit = true) :
    (e.decoded code).amoaluOut = s.amoaluOut := by
  have hreq : (e.decoded code).s2Req = s.s2Req := h.s2Req
  rw [HellaCache.amoaluOut, h.s2DataWord hno h2 hhit, hreq]
  rfl

/-- A store in the second stage has hit when it is passed on. -/
theorem bypass (hp : AtMostOneFlip code md ⟨e, s, g⟩ i) :
    (e.decoded code).bypass i.toHellaInput = s.bypass i.toHellaInput := by
  have hsame : ∀ r, (e.decoded code).sameWord i.toHellaInput r = s.sameWord i.toHellaInput r := by
    intro r
    simp only [sameWord, h.s1Addr]
  have hs2 : (e.decoded code).s2Req = s.s2Req := h.s2Req
  have hs3 : (e.decoded code).s3Valid = s.s3Valid := h.s3Valid
  have hs4 : (e.decoded code).s4Valid = s.s4Valid := h.s4Valid
  have hr4 : (e.decoded code).s4Req = s.s4Req := h.s4Req
  simp only [HellaCache.bypass, hsame, h.s2ValidMasked, h.s2ScFail, hs2, hs3, hs4, hr4]
  by_cases hv : ((s.s2ValidMasked i.toHellaInput && !s.s2ScFail)
      && s.sameWord i.toHellaInput s.s2Req && s.s2Req.cmd.isWrite) = true
  · rw [if_pos hv, if_pos hv]
    simp only [HellaCache.s2ValidMasked, s2Nack, Bool.and_eq_true, Bool.not_eq_true',
      Bool.or_eq_false_iff] at hv
    obtain ⟨⟨⟨⟨h2, hnack, -⟩, -⟩, -⟩, hwrite⟩ := hv
    rw [h.amoaluOut hno h2 (hp.hits h2 hnack (by rw [hwrite, Bool.or_true]))]
  · rw [if_neg hv, if_neg hv]
    by_cases h3 : s.s3Valid = true
    · have hr3 : (e.decoded code).s3Req = s.s3Req := (h.s3 h3).1
      rw [hr3]
    · simp [h3]

end

theorem s2Performs : (e.decoded code).s2Performs i.toHellaInput = s.s2Performs i.toHellaInput := by
  simp only [HellaCache.s2Performs, h.s2ValidMasked, h.s2Hit, h.s2ScFail]

omit [DecidableEq P.ClientState] in
theorem writes : (e.decoded code).writes = s.writes := by
  funext w row k
  have hs3 : (e.decoded code).s3Valid = s.s3Valid := h.s3Valid
  rw [HellaCache.writes, HellaCache.writes, hs3]
  by_cases h3 : s.s3Valid = true
  · have hr3 : (e.decoded code).s3Req = s.s3Req := (h.s3 h3).1
    have hw3 : (e.decoded code).s3Way = s.s3Way := (h.s3 h3).2
    rw [hr3, hw3]
  · simp [h3]

theorem lrscCountNext : (e.decoded code).lrscCountNext i.toHellaInput
    = s.lrscCountNext i.toHellaInput := by
  have hs2 : (e.decoded code).s2Req = s.s2Req := h.s2Req
  have hcount : (e.decoded code).lrscCount = s.lrscCount := h.lrscCount
  have hvalid : (e.decoded code).lrscValid = s.lrscValid := by
    rw [lrscValid, hcount]
    rfl
  simp only [HellaCache.lrscCountNext, hvalid, h.s2ValidMasked, h.s2Hit, hs2, hcount]

/-! ### One cycle without an error -/

theorem third_next (hno : NoErrorHit code e) (h3 : (s.next md i.toHellaInput).s3Valid = true) :
    (e.next code md i).s3Req = (s.next md i.toHellaInput).s3Req ∧
      (e.next code md i).s3Way = (s.next md i.toHellaInput).s3Way := by
  obtain ⟨hperf, hwrite, hreq, hway⟩ := next_third h3
  obtain ⟨h2, hhit⟩ := of_performs hperf
  have h2e : e.s2Valid = true := h.s2Valid.trans h2
  have hclean := hno h2e (h.s2Hit.trans hhit)
  have hen : e.s3En code = true := by
    rw [s3En, h2e, h.s2Req, hwrite]
    rfl
  rw [hreq, hway]
  simp only [HellaCacheECC.next, hen, hclean, if_true, h.amoaluOut hno h2 hhit, h.s2Req,
    h.s2TagMatchWay]
  simp

theorem first_next (hno : NoErrorHit code e) (hp : AtMostOneFlip code md ⟨e, s, g⟩ i)
    (h1 : (s.next md i.toHellaInput).s1Valid = true) {a : ℕ} {w : Fin c.ways} (hw : Holds md a w)
    (hrow : c.row a = c.row (s.next md i.toHellaInput).s1Req.addr) :
    code.Near ((e.next code md i).readData w (c.wordIdx a))
      ((s.next md i.toHellaInput).readData w (c.wordIdx a)) := by
  have hval : i.reqValid = true := (Bool.and_eq_true_iff.mp h1).1
  have hreq : (s.next md i.toHellaInput).s1Req = i.req := if_pos hval
  rw [hreq] at hrow
  have hrec := h.s2Recycle hno
  simp only [HellaCacheECC.next, HellaCache.next, metaRead, readAddr, hrec, hval, Bool.true_or,
    if_true, h.writes, ← hrow, Bool.false_eq_true, if_false]
  split
  · exact hp.duringWrite
  · exact h.array a w hw

theorem second_next (h2 : (s.next md i.toHellaInput).s2Valid = true) {w : Fin c.ways}
    (hw : (s.next md i.toHellaInput).s2TagMatchWay w = true) :
    code.Near ((e.next code md i).s2Data w (s.next md i.toHellaInput).s2WordIdx)
      ((s.next md i.toHellaInput).s2Data w (s.next md i.toHellaInput).s2WordIdx) := by
  have h1 : s.s1Valid = true := (Bool.and_eq_true_iff.mp h2).1
  obtain ⟨hclk, hset, hidx⟩ := h.place h1
  obtain ⟨hword, hrow, hsetp⟩ := s1Addr_place (s := s) (i := i.toHellaInput)
  have hmatch : s.s1TagMatchWay md i.toHellaInput w = true := by
    have hup : (s.next md i.toHellaInput).s2TagMatchWay w = s.s1TagMatchWay md i.toHellaInput w :=
      if_pos hclk
    rw [← hup]
    exact hw
  rw [s1TagMatchWay, Bool.and_eq_true] at hmatch
  have hheld : Holds md (s.s1Addr i.toHellaInput) w := by
    rw [Holds, hsetp, ← hset]
    exact ⟨of_decide_eq_true hmatch.1, hmatch.2⟩
  have hkeep : ∀ b : Bool, (decide ((s.next md i.toHellaInput).s2WordIdx.val = 0)
      || !c.isNarrowRead || b) = true := by
    intro b
    rw [HellaCache.s2WordIdx]
    cases c.isNarrowRead <;> simp
  have hplain : (s.next md i.toHellaInput).s2Data w (s.next md i.toHellaInput).s2WordIdx
      = s.readData w (c.wordIdx (s.s1Addr i.toHellaInput)) := by
    have hdata : (s.next md i.toHellaInput).s2Data w (s.next md i.toHellaInput).s2WordIdx
        = s.dataResp w (s.next md i.toHellaInput).s2WordIdx := by
      refine if_pos ?_
      rw [hclk, hmatch.1, Bool.true_and, Bool.true_and]
      exact hkeep _
    rw [hdata, HellaCache.dataResp, HellaCache.s2WordIdx, next_s2Req hclk]
    exact resp_word (s.readData w) (hidx.trans hword.symm)
  have hecc : (e.next code md i).s2Data w (s.next md i.toHellaInput).s2WordIdx
      = e.readData w (c.wordIdx (s.s1Addr i.toHellaInput)) := by
    have hdata : (e.next code md i).s2Data w (s.next md i.toHellaInput).s2WordIdx
        = e.dataResp w (s.next md i.toHellaInput).s2WordIdx := by
      refine if_pos ?_
      rw [h.s1ClkEn, hclk, h.s1TagEqWay, hmatch.1, Bool.true_and, Bool.true_and]
      exact hkeep _
    rw [hdata, HellaCacheECC.dataResp, HellaCache.s2WordIdx, next_s2Req hclk]
    exact resp_word (e.readData w) (h.readIdx.trans (hidx.trans hword.symm))
  rw [hplain, hecc]
  exact h.first h1 _ w hheld hrow hword

/-- **The step lemma.** -/
theorem next (hno : NoErrorHit code e) (hp : AtMostOneFlip code md ⟨e, s, g⟩ i) :
    Agrees code md (e.next code md i) (s.next md i.toHellaInput) := by
  have hrec := h.s2Recycle hno
  have hecc : e.s2RecycleEcc code = false := by
    rw [HellaCacheECC.s2Recycle, Bool.or_eq_false_iff] at hrec
    exact hrec.1
  have hread : e.metaRead code i = i.reqValid := by rw [metaRead, hrec, Bool.or_false]
  have haddr : e.readAddr code i = i.req.addr := by rw [readAddr, hrec]; rfl
  have hready : e.reqReady code i = i.reqReady := by
    rw [reqReady, hrec]
    exact Bool.and_true _
  have hmasked : (e.decoded code).s1ValidMasked i.toHellaInput
      = s.s1ValidMasked i.toHellaInput := by
    rw [s1ValidMasked, s1ValidMasked, ← h.s1Valid]
    rfl
  have hmatch : (e.decoded code).s1TagMatchWay md i.toHellaInput
      = s.s1TagMatchWay md i.toHellaInput := by
    funext w
    rw [s1TagMatchWay, s1TagMatchWay, h.s1TagEqWay, ← h.metaSet]
    rfl
  have hbypass := h.bypass hno hp
  constructor
  case place =>
    intro h1
    have hval : i.reqValid = true := (Bool.and_eq_true_iff.mp h1).1
    have hreq : (s.next md i.toHellaInput).s1Req = i.req := if_pos hval
    rw [hreq]
    exact ⟨hval, if_pos hval, if_pos hval⟩
  case array => exact hp.array
  case first => exact fun h1 a w hw hrow _ => h.first_next hno hp h1 hw hrow
  case second => exact fun h2 w hw => h.second_next h2 hw
  case s3 => exact fun h3 => h.third_next hno h3
  case s4Req =>
    simp only [HellaCacheECC.next, HellaCache.next, hread, h.s3Valid, h.s4Req]
    by_cases h3 : s.s3Valid = true
    · rw [(h.s3 h3).1]
    · simp [h3]
  case s1Recycled =>
    simp only [HellaCacheECC.next, hrec, h.s1Recycled, ite_self]
  case s2RecycleNext =>
    simp only [HellaCacheECC.next, hecc, h.s2RecycleNext, ite_self]
  case s1Req | s1Valid | s1ClkEn | s4Valid | metaSet | readIdx =>
    simp only [HellaCacheECC.next, HellaCache.next, hrec, hread, haddr, hready, h.s1Req, h.s3Valid,
      h.metaSet, h.readIdx, Bool.false_eq_true, if_false]
  case s2Req =>
    simp only [HellaCacheECC.next, HellaCache.next, h.s1ClkEn, h.s1Req, h.s1Recycled, h.s2Req,
      h.s1Addr, Bool.false_eq_true, if_false]
  case s2TagMatchWay | s2State =>
    funext w
    simp only [HellaCacheECC.next, HellaCache.next, h.s1ClkEn, hmatch, h.s2TagMatchWay, h.s2State,
      h.metaSet]
  all_goals
    simp only [HellaCacheECC.next, HellaCache.next, hmasked, hbypass, h.s1Valid, h.s1ClkEn,
      h.s2NackHit, h.s2StoreBypass, h.s2StoreBypassData, h.s2Performs, h.s2ValidMasked, h.s2Hit,
      h.s2Req, h.lrscCountNext, h.lrscAddr]

end Agrees

end Agreement

/-! ### Every run -/

/-- The processor sees no difference, and the array is what it would be but for the flipped bits. -/
structure Invisible (x : Twins P c) (i : ECCInput c) : Prop where
  ready : x.ecc.reqReady code i = i.reqReady
  answers : x.ecc.respValid code i = x.plain.respValid i.toHellaInput
  request : x.plain.respValid i.toHellaInput = true → x.ecc.s2Req = x.plain.s2Req
  values : x.plain.respValid i.toHellaInput = true →
    (x.ecc.decoded code).respData = x.plain.respData ∧
      (x.ecc.decoded code).respDataSubword = x.plain.respDataSubword
  array : ∀ a w, Holds md a w →
    code.Near (x.ecc.data w (c.row a) (c.wordIdx a)) (x.plain.data w (c.row a) (c.wordIdx a))

/-- The two caches as long as no hit meets an error. -/
def withoutErrorHit : Machine (Twins P c) (ECCInput c) :=
  (lockstep code md).restrict fun x i => AtMostOneFlip code md x i ∧ NoErrorHit code x.ecc

section Runs

variable {code md}

theorem reachable_agrees : ∀ x : Twins P c, (withoutErrorHit code md).Reachable x →
    Agrees code md x.ecc x.plain := by
  refine Machine.invariant ?_ ?_
  · rintro ⟨e, s, g⟩ ⟨-, hag, -⟩
    exact hag
  · rintro ⟨e, s, g⟩ i - - h ⟨⟨hp, hno⟩, rfl⟩
    exact h.next hno hp

theorem Agrees.invisible {x : Twins P c} (h : Agrees code md x.ecc x.plain)
    (hno : NoErrorHit code x.ecc) (i : ECCInput c) : Invisible code md x i where
  ready := by
    rw [reqReady, h.s2Recycle hno]
    exact Bool.and_true _
  answers := by
    rw [HellaCacheECC.respValid, h.respValid]
    cases hresp : x.plain.respValid i.toHellaInput
    · rfl
    rw [HellaCache.respValid, Bool.and_eq_true, HellaCache.s2ValidMasked, Bool.and_eq_true] at hresp
    rw [hno (h.s2Valid.trans hresp.1.1) (h.s2Hit.trans hresp.2)]
    rfl
  request _ := h.s2Req
  values hresp := by
    rw [HellaCache.respValid, Bool.and_eq_true, HellaCache.s2ValidMasked, Bool.and_eq_true] at hresp
    have hword := h.s2DataWord hno hresp.1.1 hresp.2
    have hreq : (x.ecc.decoded code).s2Req = x.plain.s2Req := h.s2Req
    rw [respData, respDataSubword, hword, hreq, h.s2ScFail, s2Sc, hreq]
    exact ⟨rfl, rfl⟩
  array := h.array

/-- A request is sent again in the cycle in which it meets an error, and the processor waits. -/
theorem noErrorHit_of_ready {e : HellaCacheECC P c} {i : ECCInput c} (hi : i.reqReady = true)
    (h : e.reqReady code i = i.reqReady) : NoErrorHit code e := by
  intro h2 hhit
  rw [reqReady, hi, Bool.true_and, HellaCacheECC.s2Recycle, s2RecycleEcc, h2, hhit] at h
  simpa using (Bool.or_eq_false_iff.mp (by simpa using h)).1

end Runs

/-- **The errors that no hit meets are invisible, and no others.** A hit on a double word with a
flipped bit is never answered. As long as there is none, the cache does what it would do without
errors: it takes the same requests, answers the same ones with the same values, and each double word
of the array is the same but for at most one bit. -/
theorem invisible_of_noErrorHit (P : CoherencePolicy) [DecidableEq P.ClientState]
    (c : HellaCacheConfig) (code : CorrectingCode) (md : MetaDataArray P c) :
    (∀ st lab, (lockstep code md).Run st lab → ∀ t, ∀ k ∈ (st t).log.met, ∀ u,
      k ∉ (st u).log.answered) ∧
    ∀ x, (withoutErrorHit code md).Reachable x →
      (NoErrorHit code x.ecc ↔ ∀ i, Invisible code md x i) := by
  refine ⟨fun st lab hrun t k hk u => not_answered_of_met hrun hk u, fun x hx => ⟨?_, ?_⟩⟩
  · intro hno
    exact (reachable_agrees x hx).invisible hno
  · intro hall
    let i : ECCInput c :=
      { reqValid := false, reqReady := true, req := x.ecc.s1Req, kill := false, ppn := 0,
        s1Nack := false, mshrReady := true, sret := false, readDuringWrite := 0,
        codeDuringWrite := 0, upset := fun _ _ _ => 0 }
    exact noErrorHit_of_ready (i := i) rfl (hall i).ready

/-! ### A load that is lost -/

/-- In every run each hit on a double word with an error is answered. -/
def AnswersErrorHits : Prop :=
  ∀ st lab, ((lockstep code md).restrict (AtMostOneFlip code md)).Run st lab →
    ∀ t, ∀ k ∈ (st t).log.met, ∃ u, k ∈ (st u).log.answered

section Witness

/-- Nothing under way, over zeros with one bit flipped in each code word. -/
def flippedTwins : Twins MICoherence oneLineConfig where
  ecc :=
    { s1Valid := false, s1Req := loadZero, s1ClkEn := false, s1Recycled := false, s2Valid := false,
      s2Req := loadZero, s2NackHit := false, s2TagMatchWay := fun _ => true,
      s2State := fun _ => .tileValid, s2Data := fun _ _ => 0, s2StoreBypass := false,
      s2StoreBypassData := 0, s2RecycleNext := false, s3Valid := false, s3Req := loadZero,
      s3Way := fun _ => false, s4Valid := false, s4Req := loadZero, lrscCount := 0, lrscAddr := 0,
      metaSet := 0, readIdx := zeros.readIdx, readData := fun _ _ => 0,
      data := fun _ _ _ => code.encode 0 ^^^ 2 ^ 0 }
  plain := zeros
  log := ⟨0, 0, 0, [], []⟩

/-- The load comes in the first cycle, and then nothing. -/
def loadOnce (t : ℕ) : ECCInput oneLineConfig where
  reqValid := decide (t = 0)
  reqReady := true
  req := loadZero
  kill := false
  ppn := 0
  s1Nack := false
  mshrReady := true
  sret := false
  readDuringWrite := 0
  codeDuringWrite := code.encode 0
  upset _ _ _ := 0

/-- The run of the load. -/
def loadRun : ℕ → Twins MICoherence oneLineConfig
  | 0 => flippedTwins code
  | t + 1 =>
    ⟨(loadRun t).ecc.next code oneLine (loadOnce code t),
      (loadRun t).plain.next oneLine (loadOnce code t).toHellaInput,
      logNext code (loadRun t).ecc (loadOnce code t) (loadRun t).log⟩

/-- Nobody writes, and a request that comes to the second stage hits. -/
structure Loading (x : Twins MICoherence oneLineConfig) : Prop where
  s1 : x.plain.s1Req = loadZero
  s1ecc : x.ecc.s1Req.cmd = .xrd ∧ x.ecc.s1Req.addr = 0
  s2 : x.plain.s2Req.cmd = .xrd
  s2ecc : x.ecc.s2Req.cmd = .xrd ∧ x.ecc.s2Req.addr = 0
  tagMatch : x.plain.s2TagMatchWay = (fun _ => true) ∧ x.ecc.s2TagMatchWay = fun _ => true
  state : x.plain.s2State = (fun _ => .tileValid) ∧ x.ecc.s2State = fun _ => .tileValid
  s3 : x.plain.s3Valid = false ∧ x.ecc.s3Valid = false
  data : x.plain.data = (fun _ _ _ => 0) ∧ x.ecc.data = fun _ _ _ => code.encode 0 ^^^ 2 ^ 0

theorem s1TagEqWay_oneLine {s : HellaCache MICoherence oneLineConfig} (h : s.s1Req.addr = 0)
    (t : ℕ) (w : Fin oneLineConfig.ways) :
    s.s1Addr (loadOnce code t).toHellaInput = 0 ∧
      s.s1TagEqWay oneLine (loadOnce code t).toHellaInput w = true ∧
      s.s1TagMatchWay oneLine (loadOnce code t).toHellaInput w = true := by
  have haddr : s.s1Addr (loadOnce code t).toHellaInput = 0 := by
    simp [HellaCache.s1Addr, h, loadOnce, Bits.cat]
  have htag : s.s1TagEqWay oneLine (loadOnce code t).toHellaInput w = true := by
    rw [HellaCache.s1TagEqWay, haddr, Nat.zero_div]
    rfl
  refine ⟨haddr, htag, ?_⟩
  rw [s1TagMatchWay, htag]
  rfl

variable {code}

theorem loadRun_loading (t : ℕ) : Loading code (loadRun code t) := by
  induction t with
  | zero => constructor <;> first | exact ⟨rfl, rfl⟩ | rfl
  | succ t ih =>
    have hplain := s1TagEqWay_oneLine code (by rw [ih.s1]; rfl) t
    have hecc := s1TagEqWay_oneLine code (s := (loadRun code t).ecc.decoded code) ih.s1ecc.2 t
    have hxrd : MemCmd.xrd.isWrite = false := rfl
    constructor
    · simp only [loadRun, HellaCache.next, ih.s1]
      exact ite_self _
    · simp only [loadRun, HellaCacheECC.next]
      split
      · exact ih.s2ecc
      split
      · exact ⟨rfl, rfl⟩
      · exact ih.s1ecc
    · simp only [loadRun, HellaCache.next, ih.s1]
      split
      · rfl
      · exact ih.s2
    · simp only [loadRun, HellaCacheECC.next]
      split
      · exact ⟨ih.s1ecc.1, (hecc ⟨0, by decide⟩).1⟩
      · exact ih.s2ecc
    · constructor
      · funext w
        simp only [loadRun, HellaCache.next, hplain, ih.tagMatch, ite_self]
      · funext w
        simp only [loadRun, HellaCacheECC.next, hecc, ih.tagMatch, ite_self]
    · constructor
      · funext w
        simp only [loadRun, HellaCache.next, ih.state, oneLine]
        exact ite_self _
      · funext w
        simp only [loadRun, HellaCacheECC.next, ih.state, oneLine]
        exact ite_self _
    · simp [loadRun, HellaCache.next, HellaCacheECC.next, ih.s2, ih.s2ecc, hxrd]
    · constructor
      · funext w row k
        simp [loadRun, HellaCache.next, HellaCache.writes, ih.s3, ih.data]
      · funext w row k
        simp [loadRun, HellaCacheECC.next, HellaCache.writes, decoded, ih.s3, ih.data, loadOnce]

theorem loadRun_run (hw : 0 < code.width) :
    ((lockstep code oneLine).restrict (AtMostOneFlip code oneLine)).Run (loadRun code)
      (loadOnce code) where
  init := by
    refine ⟨⟨rfl, rfl, rfl, rfl⟩, ?_, rfl⟩
    constructor
    case array => exact fun _ _ _ => .inr ⟨0, hw, rfl⟩
    case s3 | place | first | second => exact fun h => absurd h Bool.false_ne_true
    all_goals rfl
  step t := by
    have h : Loading code (loadRun code t) := loadRun_loading t
    have hnext : Loading code (loadRun code (t + 1)) := loadRun_loading (t + 1)
    refine ⟨⟨fun _ _ _ => ?_, fun a w _ => ?_, .inl rfl⟩, rfl⟩
    · rw [HellaCache.s2Hit, s2HitState, h.tagMatch.1, h.state.1, h.s2]
      rfl
    · have hplain : ((loadRun code t).plain.next oneLine (loadOnce code t).toHellaInput).data
          = fun _ _ _ => 0 := hnext.data.1
      have hecc : ((loadRun code t).ecc.next code oneLine (loadOnce code t)).data
          = fun _ _ _ => code.encode 0 ^^^ 2 ^ 0 := hnext.data.2
      rw [hplain, hecc]
      exact .inr ⟨0, hw, rfl⟩

theorem mem_met_loadRun (hw : 0 < code.width) : 0 ∈ (loadRun code 3).log.met := by
  have h1 : Loading code (loadRun code 1) := loadRun_loading 1
  have h : Loading code (loadRun code 2) := loadRun_loading 2
  have htag := s1TagEqWay_oneLine code (s := (loadRun code 1).ecc.decoded code) h1.s1ecc.2 1
  have hdata : ∀ w k, (loadRun code 2).ecc.s2Data w k = code.encode 0 ^^^ 2 ^ 0 := by
    intro w k
    have hk : k = ⟨0, Nat.one_pos⟩ := Subsingleton.elim (α := Fin 1) _ _
    have hkeep : (loadRun code 2).ecc.s2Data w k = (loadRun code 1).ecc.dataResp w k := by
      rw [hk]
      refine if_pos ?_
      rw [(htag w).2.1]
      rfl
    rw [hkeep]
    rfl
  have herr : (loadRun code 2).ecc.s2DataCorrectable code = true := by
    have hmuxed : (loadRun code 2).ecc.s2DataMuxed
        = (loadRun code 2).ecc.s2Data ⟨0, Nat.one_pos⟩ := by
      rw [HellaCacheECC.s2DataMuxed, h.tagMatch.2]
      rfl
    rw [s2DataCorrectable, hmuxed, hdata]
    exact code.correctable_flip 0 0 hw
  have hresp : ((loadRun code 2).ecc.decoded code).respValid (loadOnce code 2).toHellaInput
      = true := by
    have hhit : ((loadRun code 2).ecc.decoded code).s2Hit = true := by
      simp only [HellaCache.s2Hit, s2HitState, decoded, h.tagMatch.2, h.state.2, h.s2ecc.1]
      rfl
    rw [HellaCache.respValid, HellaCache.s2ValidMasked, s2Nack, hhit]
    rfl
  have hmet : (loadRun code 3).log.met = (loadRun code 2).log.met ++
      if (loadRun code 2).ecc.meetsError code (loadOnce code 2) then [(loadRun code 2).log.who2]
      else [] := rfl
  have hwho : (loadRun code 2).log.who2 = 0 := rfl
  rw [hmet, meetsError, hresp, herr, hwho]
  simp

theorem not_answersErrorHits_of_width (hw : 0 < code.width) : ¬AnswersErrorHits code oneLine := by
  intro h
  obtain ⟨u, hu⟩ := h _ _ (loadRun_run hw) 3 0 (mem_met_loadRun hw)
  exact not_answered_of_met ⟨(loadRun_run hw).init, fun t => ((loadRun_run hw).step t).2⟩
    (mem_met_loadRun hw) u hu

end Witness

/-- With either of the two codes, a load whose double word has one flipped bit is never answered. -/
theorem not_answersErrorHits :
    ¬AnswersErrorHits secCode oneLine ∧ ¬AnswersErrorHits secdedCode oneLine :=
  ⟨not_answersErrorHits_of_width (by decide), not_answersErrorHits_of_width (by decide)⟩

end HellaCacheECC

end RiscvSoc
