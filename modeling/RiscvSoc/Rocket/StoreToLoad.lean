import RiscvSoc.Rocket.HellaCache
import RiscvSoc.Lib.Machine

/-!
# A load sees the stores before it

The data cache performs a request in its second stage. A store has not written the array by then:
that happens a cycle later, and the next two requests have read the array too early to see it. They
take the double word from the stages ahead.

The memory of the specification is made of bytes, and every request that is performed changes it at
once. The argument compares the two: in each cycle the array, with what the third stage is about to
write, is the memory (`Consistent.memory`), and what the second stage works on, from the array or
from a bypass, is the memory too (`Consistent.second`). An atomic reads that and writes what comes
out of the ALU, so that chains of them are no special case.

## What the processor promises

Nothing is asked of the order, the addresses or the gaps of the requests. One that is misaligned
raises an exception in the first stage and is killed there; the sizes are those of the instruction
set; and every load or store that is not refused hits.
-/

namespace RiscvSoc

open Bits

/-! ### Places in the arrays -/

theorem div_mod_congr {a b u x y : ℕ} (h : a % 2 ^ u = b % 2 ^ u) (hxy : x + y ≤ u) :
    a / 2 ^ x % 2 ^ y = b / 2 ^ x % 2 ^ y := by
  have hdigits : ∀ a : ℕ, a / 2 ^ x % 2 ^ y = a % 2 ^ u % 2 ^ (x + y) / 2 ^ x := by
    intro a
    rw [Nat.mod_mod_of_dvd _ (pow_dvd_pow 2 hxy), pow_add, Nat.mod_mul_right_div_self]
  rw [hdigits, hdigits, h]

namespace HellaCacheConfig

variable {c : HellaCacheConfig} {a b : ℕ}

theorem rowoff_le : c.rowoffbits ≤ c.untagbits := c.row_le.trans c.off_le

theorem place_congr (h : a % 2 ^ c.untagbits = b % 2 ^ c.untagbits) :
    c.wordIdx a = c.wordIdx b ∧ c.row a = c.row b ∧ c.set a = c.set b := by
  have hrow := rowoff_le (c := c)
  have hoff := c.off_le
  refine ⟨Fin.ext (div_mod_congr h hrow), div_mod_congr h ?_, div_mod_congr h ?_⟩
  · omega
  · omega

/-- Everything there is to know of where a double word is. -/
theorem place_of_word (h : a / 2 ^ 3 = b / 2 ^ 3) :
    c.wordIdx a = c.wordIdx b ∧ c.row a = c.row b ∧ c.set a = c.set b ∧
      a / 2 ^ c.untagbits = b / 2 ^ c.untagbits := by
  have hrow := c.row_le
  have hoff := c.off_le
  have hdiv : ∀ x, 3 ≤ x → a / 2 ^ x = b / 2 ^ x := by
    intro x hx
    have hsplit : ∀ a : ℕ, a / 2 ^ x = a / 2 ^ 3 / 2 ^ (x - 3) := by
      intro a
      rw [Nat.div_div_eq_div_mul, ← pow_add, Nat.add_sub_cancel' hx]
    rw [hsplit, hsplit, h]
  refine ⟨Fin.ext ?_, ?_, ?_, hdiv _ (by omega)⟩
  · show a / 2 ^ 3 % _ = b / 2 ^ 3 % _
    rw [h]
  · rw [row, row, hdiv c.rowoffbits (Nat.le_add_right 3 _)]
  · rw [set, set, hdiv _ (by omega)]

theorem set_of_row (h : c.row a = c.row b) : c.set a = c.set b := by
  have hrow : c.rowoffbits ≤ c.offbits := c.row_le
  have hoff := c.off_le
  have hset : ∀ a, c.set a = c.row a / 2 ^ (c.offbits - c.rowoffbits) := by
    intro a
    have hsum : c.untagbits - c.rowoffbits
        = (c.offbits - c.rowoffbits) + (c.untagbits - c.offbits) := by omega
    rw [row, hsum, pow_add, Nat.mod_mul_right_div_self, Nat.div_div_eq_div_mul, ← pow_add,
      Nat.add_sub_cancel' hrow, set]
  rw [hset, hset, h]

/-- A double word is told from the others by its place and its tag. -/
theorem word_of_place (hidx : c.wordIdx a = c.wordIdx b) (hrow : c.row a = c.row b)
    (htag : a / 2 ^ c.untagbits = b / 2 ^ c.untagbits) : a / 2 ^ 3 = b / 2 ^ 3 := by
  have hle := rowoff_le (c := c)
  have hup : a / 2 ^ c.rowoffbits = b / 2 ^ c.rowoffbits := by
    have hsplit : ∀ a : ℕ, a / 2 ^ c.rowoffbits =
        2 ^ (c.untagbits - c.rowoffbits) * (a / 2 ^ c.untagbits) + c.row a := by
      intro a
      have hdiv : a / 2 ^ c.untagbits
          = a / 2 ^ c.rowoffbits / 2 ^ (c.untagbits - c.rowoffbits) := by
        rw [Nat.div_div_eq_div_mul, ← pow_add, Nat.add_sub_cancel' hle]
      rw [hdiv, row, Nat.div_add_mod]
    rw [hsplit, hsplit, htag, hrow]
  have hsplit : ∀ a : ℕ, a / 2 ^ 3
      = 2 ^ c.rowwordbits * (a / 2 ^ c.rowoffbits) + (c.wordIdx a).val := by
    intro a
    rw [rowoffbits, pow_add, ← Nat.div_div_eq_div_mul]
    exact (Nat.div_add_mod _ _).symm
  rw [hsplit, hsplit, hup, hidx]

end HellaCacheConfig

/-! ### The memory behind -/

/-- What a request that is performed does to the memory. -/
def HellaReq.perform (m : ByteMem ℕ) (r : HellaReq) : ByteMem ℕ :=
  if r.cmd.isWrite then m.perform (AMOALU.write m (r.addr / 2 ^ 3) r.cmd r.typ r.off r.data) else m

/-- The bytes of a request. -/
def HellaReq.access (r : HellaReq) : Access ℕ := AMOALU.access (r.addr / 2 ^ 3) r.typ r.off

/-- What is known of a request when it is accepted. -/
def HellaReq.key (c : HellaCacheConfig) (r : HellaReq) : MemTyp × ℕ × ℕ × MemCmd :=
  (r.typ, r.addr % 2 ^ c.pgidxbits, r.tag, r.cmd)

/-- The memory at the beginning, the requests accepted and the requests performed. -/
structure HellaLog where
  mem : ByteMem ℕ
  accepted : List HellaReq
  done : List HellaReq

/-- The memory after the requests performed so far. -/
def HellaLog.now (g : HellaLog) : ByteMem ℕ := g.done.foldl HellaReq.perform g.mem

namespace HellaCache

variable {P : CoherencePolicy} {c : HellaCacheConfig} (md : MetaDataArray P c)

/-- Way `w` has the line of an address. -/
def Holds (a : ℕ) (w : Fin c.ways) : Prop :=
  md.tag (c.set a) w = a / 2 ^ c.untagbits ∧ P.isValid (md.state (c.set a) w) = true

theorem muxWay_eq {n : ℕ} {α : Type} {sel : Fin n → Bool} {v : Fin n → α} {w : Fin n}
    (hw : sel w = true) (huniq : ∀ w', sel w' = true → w' = w) : muxWay sel v = some (v w) := by
  rw [muxWay]
  cases hfind : (List.finRange n).find? sel with
  | none => exact absurd hw (by simpa using List.find?_eq_none.mp hfind w (List.mem_finRange w))
  | some w' => rw [huniq w' (List.find?_some hfind), Option.map_some]

section Holds

variable {md} {a b : ℕ} {w w' : Fin c.ways}

theorem Holds.of_word (h : Holds md a w) (hab : a / 2 ^ 3 = b / 2 ^ 3) : Holds md b w := by
  obtain ⟨-, -, hset, htag⟩ := HellaCacheConfig.place_of_word (c := c) hab
  rw [Holds, ← hset, ← htag]
  exact h

theorem Holds.same_word (ha : Holds md a w) (hb : Holds md b w) (hrow : c.row a = c.row b)
    (hidx : c.wordIdx a = c.wordIdx b) : a / 2 ^ 3 = b / 2 ^ 3 := by
  refine HellaCacheConfig.word_of_place hidx hrow ?_
  rw [← ha.1, ← hb.1, HellaCacheConfig.set_of_row hrow]

theorem Holds.same_way (h : Holds md a w) (h' : Holds md a w') : w = w' :=
  md.distinct _ w w' h.2 h'.2 (h.1.trans h'.1.symm)

end Holds

variable [DecidableEq P.ClientState]

def logNext (s : HellaCache P c) (i : HellaInput) (g : HellaLog) : HellaLog :=
  { g with
    accepted := g.accepted ++ if i.reqValid && i.reqReady then [i.req] else []
    done := g.done ++ if s.s2Performs i then [s.s2Req] else [] }

/-- Nothing under way. -/
structure Idle (s : HellaCache P c) : Prop where
  s1 : s.s1Valid = false
  s2 : s.s2Valid = false
  s3 : s.s3Valid = false
  s4 : s.s4Valid = false

/-- The cache with nothing under way, over the memory its lines are of, and what it performs. -/
def machine : Machine (HellaCache P c × HellaLog) HellaInput where
  init x := Idle x.1 ∧ (∀ a w, Holds md a w →
    x.1.data w (c.row a) (c.wordIdx a) = x.2.mem.word (a / 2 ^ 3)) ∧
    x.2.accepted = [] ∧ x.2.done = []
  step x i x' := x'.1 = x.1.next md i ∧ x'.2 = logNext x.1 i x.2

/-- What the processor promises of the request in the first stage, and that the one in the second
hits. -/
structure Promised (x : HellaCache P c × HellaLog) (i : HellaInput) : Prop where
  killed : x.1.s1Valid = true → (x.1.s1Req.cmd.isRead || x.1.s1Req.cmd.isWrite) = true →
    x.1.s1Req.misaligned = true → i.kill = true
  sized : x.1.s1Valid = true → (x.1.s1Req.cmd.isRead || x.1.s1Req.cmd.isWrite) = true →
    x.1.s1Req.typ ≠ .x
  atomic : x.1.s1Valid = true → x.1.s1Req.cmd.isAMO = true →
    x.1.s1Req.typ = .w ∨ x.1.s1Req.typ = .d
  hits : x.1.s2Valid = true → x.1.s2NackHit = false →
    (x.1.s2Req.cmd.isRead || x.1.s2Req.cmd.isWrite) = true → x.1.s2Hit = true

/-! ### What every cycle keeps -/

/-- What a request reads besides a bypass. -/
def readWord (s : HellaCache P c) (w : Fin c.ways) : Word := s.s2Data w s.s2WordIdx

/-- The cache and the memory agree. -/
structure Consistent (s : HellaCache P c) (m : ByteMem ℕ) : Prop where
  /-- What the third stage is about to write is all that the array lacks. -/
  memory : ∀ a w, Holds md a w → m.word (a / 2 ^ 3) =
    if s.s3Valid = true ∧ s.s3Req.addr / 2 ^ 3 = a / 2 ^ 3 then s.s3Req.data
    else s.data w (c.row a) (c.wordIdx a)
  third : s.s3Valid = true →
    s.s3Req.cmd.isWrite = true ∧ ∀ w, s.s3Way w = true ↔ Holds md s.s3Req.addr w
  fourth : s.s1ClkEn = true → s.s4Valid = true → s.s4Req.cmd.isWrite = true ∧
    ∀ w, Holds md s.s4Req.addr w →
      s.data w (c.row s.s4Req.addr) (c.wordIdx s.s4Req.addr) = s.s4Req.data
  /-- The array was read for the first stage, except where it was being written. -/
  first : s.s1Valid = true → s.s1ClkEn = true ∧ s.metaSet = c.set s.s1Req.addr ∧
    s.readIdx = c.wordIdx s.s1Req.addr ∧ ∀ w,
      s.readData w (c.wordIdx s.s1Req.addr)
        = s.data w (c.row s.s1Req.addr) (c.wordIdx s.s1Req.addr) ∨
      s.s4Valid = true ∧ Holds md s.s4Req.addr w ∧ c.row s.s4Req.addr = c.row s.s1Req.addr ∧
        c.wordIdx s.s4Req.addr = c.wordIdx s.s1Req.addr
  second : s.s2Valid = true → (∀ w, s.s2TagMatchWay w = true ↔ Holds md s.s2Req.addr w) ∧
    (∀ w, Holds md s.s2Req.addr w →
      (if s.s2StoreBypass then s.s2StoreBypassData else s.readWord w)
        = m.word (s.s2Req.addr / 2 ^ 3)) ∧
    ((s.s2Req.cmd.isRead || s.s2Req.cmd.isWrite) = true →
      AccessOk s.s2Req.cmd s.s2Req.typ s.s2Req.off)

variable {md} {s : HellaCache P c} {m : ByteMem ℕ} {i : HellaInput}

section

variable (h : Consistent md s m) (hv : s.s2Valid = true) (hhit : s.s2Hit = true)
include h hv hhit

theorem Consistent.holds_of_hit : ∃ w, Holds md s.s2Req.addr w := by
  rw [s2Hit, s2HitState, muxWay] at hhit
  cases hfind : (List.finRange c.ways).find? s.s2TagMatchWay with
  | none =>
    rw [hfind] at hhit
    cases hhit
  | some w => exact ⟨w, ((h.second hv).1 w).mp (List.find?_some hfind)⟩

theorem Consistent.s2DataWord_eq : s.s2DataWord = m.word (s.s2Req.addr / 2 ^ 3) := by
  obtain ⟨w, hw⟩ := h.holds_of_hit hv hhit
  obtain ⟨hmatch, hword, -⟩ := h.second hv
  have hmux : s.s2DataMuxed = s.s2Data w := by
    rw [s2DataMuxed, muxWay_eq ((hmatch w).mpr hw) fun w' hw' => ((hmatch w').mp hw').same_way hw,
      Option.getD_some]
  rw [← hword w hw, s2DataWord, hmux]
  rfl

theorem Consistent.amoaluOut_eq (hw : s.s2Req.cmd.isWrite = true) :
    s.amoaluOut = (HellaReq.perform m s.s2Req).word (s.s2Req.addr / 2 ^ 3) := by
  have hok := (h.second hv).2.2 (by rw [hw, Bool.or_true])
  rw [amoaluOut, h.s2DataWord_eq hv hhit, HellaReq.perform, if_pos hw]
  exact AMOALU.out_word _ m _ hok

end

variable {w : Fin c.ways} {r : HellaReq} {g : HellaLog}

theorem Consistent.data_next (h : Consistent md s m) {a : ℕ} (hw : Holds md a w) :
    (s.next md i).data w (c.row a) (c.wordIdx a) = m.word (a / 2 ^ 3) := by
  rw [h.memory a w hw]
  show (if s.writes w (c.row a) (c.wordIdx a) then s.s3Req.data else _) = _
  by_cases hsame : s.s3Valid = true ∧ s.s3Req.addr / 2 ^ 3 = a / 2 ^ 3
  · obtain ⟨hidx, hrow, -, -⟩ := HellaCacheConfig.place_of_word (c := c) hsame.2
    have hway := ((h.third hsame.1).2 w).mpr (hw.of_word hsame.2.symm)
    rw [if_pos hsame, if_pos]
    rw [writes, hsame.1, hway, hrow, hidx]
    simp
  · rw [if_neg hsame, if_neg]
    intro hwrites
    simp only [writes, Bool.and_eq_true, decide_eq_true_eq] at hwrites
    obtain ⟨⟨⟨hv, hway⟩, hrow⟩, hidx⟩ := hwrites
    exact hsame ⟨hv, (((h.third hv).2 w).mp hway).same_word hw hrow hidx⟩

theorem perform_word_of_ne {l : ℕ} (h : r.cmd.isWrite = true → l ≠ r.addr / 2 ^ 3) :
    (r.perform m).word l = m.word l := by
  rw [HellaReq.perform]
  split
  · exact ByteMem.word_perform_of_ne (h ‹_›)
  · rfl

/-- The memory after the cycle. -/
def memNext (s : HellaCache P c) (i : HellaInput) (m : ByteMem ℕ) : ByteMem ℕ :=
  if s.s2Performs i then s.s2Req.perform m else m

/-- A write that is not refused and does not fail is performed. -/
theorem performs_of_bypass (hp : Promised (s, g) i) (hv : s.s2ValidMasked i = true)
    (hsc : s.s2ScFail = false) (hw : s.s2Req.cmd.isWrite = true) :
    s.s2Valid = true ∧ s.s2Hit = true ∧ s.s2Performs i = true := by
  have hmask := hv
  rw [s2ValidMasked, Bool.and_eq_true, s2Nack, Bool.not_eq_true', Bool.or_eq_false_iff] at hmask
  have hhit := hp.hits hmask.1 hmask.2.1 (by rw [hw, Bool.or_true])
  exact ⟨hmask.1, hhit, by rw [s2Performs, hv, hhit, hsc]; rfl⟩

/-! ### The second stage to the third -/

theorem of_performs (hp : s.s2Performs i = true) : s.s2Valid = true ∧ s.s2Hit = true := by
  rw [s2Performs, Bool.and_eq_true, Bool.and_eq_true, s2ValidMasked, Bool.and_eq_true] at hp
  exact ⟨hp.1.1.1, hp.1.2⟩

theorem next_third (h3 : (s.next md i).s3Valid = true) :
    s.s2Performs i = true ∧ s.s2Req.cmd.isWrite = true ∧
      (s.next md i).s3Req = { s.s2Req with data := s.amoaluOut } ∧
      (s.next md i).s3Way = s.s2TagMatchWay := by
  obtain ⟨hp, hw⟩ := Bool.and_eq_true_iff.mp h3
  have hcond : (s.s2Valid && s.s2Req.cmd.isWrite) = true := by rw [(of_performs hp).1, hw]; rfl
  exact ⟨hp, hw, if_pos hcond, if_pos hcond⟩

section

variable (h : Consistent md s m)
include h

theorem Consistent.memory_next {a : ℕ} (hw : Holds md a w) : (memNext s i m).word (a / 2 ^ 3) =
      if (s.next md i).s3Valid = true ∧ (s.next md i).s3Req.addr / 2 ^ 3 = a / 2 ^ 3 then
        (s.next md i).s3Req.data
      else (s.next md i).data w (c.row a) (c.wordIdx a) := by
  rw [h.data_next hw, memNext]
  by_cases h3 : (s.next md i).s3Valid = true
  · obtain ⟨hp, hwrite, hreq, -⟩ := next_third h3
    obtain ⟨hv, hhit⟩ := of_performs hp
    rw [hreq, if_pos hp]
    by_cases hsame : s.s2Req.addr / 2 ^ 3 = a / 2 ^ 3
    · rw [if_pos ⟨h3, hsame⟩, ← hsame]
      exact (h.amoaluOut_eq hv hhit hwrite).symm
    · rw [if_neg fun heq => hsame heq.2]
      exact perform_word_of_ne fun _ => Ne.symm hsame
  · refine Eq.trans ?_ (if_neg fun heq => h3 heq.1).symm
    split
    · rename_i hp
      refine perform_word_of_ne fun hwrite => absurd ?_ h3
      exact Bool.and_eq_true_iff.mpr ⟨hp, hwrite⟩
    · rfl

theorem Consistent.third_next (h3 : (s.next md i).s3Valid = true) :
    (s.next md i).s3Req.cmd.isWrite = true ∧
      ∀ w, (s.next md i).s3Way w = true ↔ Holds md (s.next md i).s3Req.addr w := by
  obtain ⟨hp, hwrite, hreq, hway⟩ := next_third h3
  rw [hreq, hway]
  exact ⟨hwrite, (h.second (of_performs hp).1).1⟩

theorem Consistent.fourth_next (hclk : (s.next md i).s1ClkEn = true)
    (h4 : (s.next md i).s4Valid = true) : (s.next md i).s4Req.cmd.isWrite = true ∧
      ∀ w, Holds md (s.next md i).s4Req.addr w →
        (s.next md i).data w (c.row (s.next md i).s4Req.addr)
          (c.wordIdx (s.next md i).s4Req.addr) = (s.next md i).s4Req.data := by
  have h3 : s.s3Valid = true := h4
  have hreq : (s.next md i).s4Req = s.s3Req :=
    if_pos (Bool.and_eq_true_iff.mpr ⟨h3, hclk⟩)
  rw [hreq]
  refine ⟨(h.third h3).1, fun w hw => ?_⟩
  rw [h.data_next hw, h.memory _ w hw, if_pos ⟨h3, rfl⟩]

/-! ### The request to the first stage -/

theorem Consistent.first_next (h1 : (s.next md i).s1Valid = true) :
    (s.next md i).s1ClkEn = true ∧ (s.next md i).metaSet = c.set (s.next md i).s1Req.addr ∧
      (s.next md i).readIdx = c.wordIdx (s.next md i).s1Req.addr ∧ ∀ w,
        (s.next md i).readData w (c.wordIdx (s.next md i).s1Req.addr)
          = (s.next md i).data w (c.row (s.next md i).s1Req.addr)
              (c.wordIdx (s.next md i).s1Req.addr) ∨
        (s.next md i).s4Valid = true ∧ Holds md (s.next md i).s4Req.addr w ∧
          c.row (s.next md i).s4Req.addr = c.row (s.next md i).s1Req.addr ∧
          c.wordIdx (s.next md i).s4Req.addr = c.wordIdx (s.next md i).s1Req.addr := by
  have hval : i.reqValid = true := (Bool.and_eq_true_iff.mp h1).1
  have hreq : (s.next md i).s1Req = i.req := if_pos hval
  rw [hreq]
  refine ⟨hval, if_pos hval, if_pos hval, fun w => ?_⟩
  have hread : (s.next md i).readData w (c.wordIdx i.req.addr)
      = if s.writes w (c.row i.req.addr) (c.wordIdx i.req.addr) then i.readDuringWrite
        else s.data w (c.row i.req.addr) (c.wordIdx i.req.addr) := if_pos hval
  have hdata : (s.next md i).data w (c.row i.req.addr) (c.wordIdx i.req.addr)
      = if s.writes w (c.row i.req.addr) (c.wordIdx i.req.addr) then s.s3Req.data
        else s.data w (c.row i.req.addr) (c.wordIdx i.req.addr) := rfl
  by_cases hwrites : s.writes w (c.row i.req.addr) (c.wordIdx i.req.addr) = true
  · have hall := hwrites
    simp only [writes, Bool.and_eq_true, decide_eq_true_eq] at hall
    obtain ⟨⟨⟨h3, hway⟩, hrow⟩, hidx⟩ := hall
    have hreq4 : (s.next md i).s4Req = s.s3Req :=
      if_pos (Bool.and_eq_true_iff.mpr ⟨h3, hval⟩)
    rw [hreq4]
    exact .inr ⟨h3, ((h.third h3).2 w).mp hway, hrow, hidx⟩
  · refine .inl ?_
    rw [hread, hdata, if_neg hwrites, if_neg hwrites]

end

/-! ### The first stage to the second -/

omit [DecidableEq P.ClientState] in
theorem s1Addr_low {x : ℕ} (hx : x ≤ c.pgidxbits) : s.s1Addr i % 2 ^ x = s.s1Req.addr % 2 ^ x := by
  have hlow : s.s1Addr i % 2 ^ c.pgidxbits = s.s1Req.addr % 2 ^ c.pgidxbits :=
    cat_mod (Nat.mod_lt _ (Nat.two_pow_pos _))
  rw [← Nat.mod_mod_of_dvd _ (pow_dvd_pow 2 hx), hlow, Nat.mod_mod_of_dvd _ (pow_dvd_pow 2 hx)]

omit [DecidableEq P.ClientState] in
theorem s1Addr_place : c.wordIdx (s.s1Addr i) = c.wordIdx s.s1Req.addr ∧
    c.row (s.s1Addr i) = c.row s.s1Req.addr ∧ c.set (s.s1Addr i) = c.set s.s1Req.addr :=
  HellaCacheConfig.place_congr (s1Addr_low c.untag_le)

omit [DecidableEq P.ClientState] in
theorem Consistent.s1TagMatchWay_iff (h : Consistent md s m) (h1 : s.s1Valid = true)
    (w : Fin c.ways) : s.s1TagMatchWay md i w = true ↔ Holds md (s.s1Addr i) w := by
  rw [s1TagMatchWay, Bool.and_eq_true, s1TagEqWay, decide_eq_true_eq, Holds,
    s1Addr_place.2.2, (h.first h1).2.1]

theorem next_s2Req (hclk : s.s1ClkEn = true) : (s.next md i).s2Req =
    { s.s1Req with
      addr := s.s1Addr i
      data := if s.s1Req.cmd.isWrite then i.req.data else s.s2Req.data } := if_pos hclk

/-- The second stage gets the double word the array was read for. -/
theorem Consistent.readWord_next (h : Consistent md s m) (h1 : s.s1Valid = true)
    (hw : Holds md (s.s1Addr i) w) :
    (s.next md i).readWord w = s.readData w (c.wordIdx s.s1Req.addr) := by
  obtain ⟨hclk, hset, hidx, -⟩ := h.first h1
  have htag : s.s1TagEqWay md i w = true := by
    rw [s1TagEqWay, hset, ← s1Addr_place.2.2]
    exact decide_eq_true hw.1
  have hreg : ∀ k, (decide (k.val = 0) || !c.isNarrowRead) = true →
      (s.next md i).s2Data w k = s.dataResp w k := by
    intro k hk
    refine if_pos ?_
    rw [hclk, htag, hk]
    rfl
  rw [readWord, s2WordIdx]
  by_cases hnarrow : c.isNarrowRead = true
  · rw [if_pos hnarrow, hreg _ rfl, dataResp, hnarrow, hidx]
    rfl
  · have hwide : c.isNarrowRead = false := Bool.eq_false_iff.mpr hnarrow
    rw [if_neg hnarrow, hreg _ (by rw [hwide]; simp), dataResp, hwide, next_s2Req hclk,
      s1Addr_place.1]
    rfl

/-- **The double word the second stage starts with** is the memory after what is ahead of it. -/
theorem Consistent.word_next (h : Consistent md s m) (hp : Promised (s, g) i)
    (h1 : s.s1Valid = true) (hw : Holds md (s.s1Addr i) w) :
    (if (s.next md i).s2StoreBypass then (s.next md i).s2StoreBypassData
      else (s.next md i).readWord w) = (memNext s i m).word (s.s1Addr i / 2 ^ 3) := by
  obtain ⟨hclk, -, -, hread⟩ := h.first h1
  have hsome : (s.next md i).s2StoreBypass = (s.bypass i).isSome := if_pos hclk
  have hdata : (s.next md i).s2StoreBypassData = (s.bypass i).getD s.s2StoreBypassData :=
    if_pos hclk
  rw [hsome, hdata, h.readWord_next h1 hw]
  by_cases h2 : ((s.s2ValidMasked i && !s.s2ScFail) && s.sameWord i s.s2Req
      && s.s2Req.cmd.isWrite) = true
  · -- The store right ahead: it is performed in this cycle.
    have hby : s.bypass i = some s.amoaluOut := if_pos h2
    simp only [Bool.and_eq_true, Bool.not_eq_true', sameWord, decide_eq_true_eq] at h2
    obtain ⟨⟨⟨hv, hsc⟩, hsame⟩, hwrite⟩ := h2
    obtain ⟨hv2, hhit, hperf⟩ := performs_of_bypass hp hv hsc hwrite
    rw [hby, memNext, if_pos hperf, hsame]
    exact h.amoaluOut_eq hv2 hhit hwrite
  · have hkeep : (memNext s i m).word (s.s1Addr i / 2 ^ 3) = m.word (s.s1Addr i / 2 ^ 3) := by
      rw [memNext]
      split
      · rename_i hperf
        refine perform_word_of_ne fun hwrite hsame => h2 ?_
        rw [s2Performs, Bool.and_eq_true, Bool.and_eq_true] at hperf
        rw [hperf.1.1, hperf.2, hwrite, sameWord, decide_eq_true hsame]
        rfl
      · rfl
    rw [hkeep, h.memory _ w hw]
    by_cases h3 : (s.s3Valid && s.sameWord i s.s3Req && s.s3Req.cmd.isWrite) = true
    · have hby : s.bypass i = some s.s3Req.data := (if_neg h2).trans (if_pos h3)
      simp only [Bool.and_eq_true, sameWord, decide_eq_true_eq] at h3
      rw [hby]
      exact (if_pos ⟨h3.1.1, h3.1.2.symm⟩).symm
    · have hno : ¬(s.s3Valid = true ∧ s.s3Req.addr / 2 ^ 3 = s.s1Addr i / 2 ^ 3) := by
        rintro ⟨hv, hsame⟩
        refine h3 ?_
        rw [hv, (h.third hv).1, sameWord, decide_eq_true hsame.symm]
        rfl
      rw [if_neg hno, s1Addr_place.1, s1Addr_place.2.1]
      by_cases h4 : (s.s4Valid && s.sameWord i s.s4Req && s.s4Req.cmd.isWrite) = true
      · have hby : s.bypass i = some s.s4Req.data :=
          ((if_neg h2).trans (if_neg h3)).trans (if_pos h4)
        simp only [Bool.and_eq_true, sameWord, decide_eq_true_eq] at h4
        obtain ⟨⟨hv, hsame⟩, -⟩ := h4
        obtain ⟨hidx, hrow, -, -⟩ := HellaCacheConfig.place_of_word (c := c) hsame
        rw [hby, ← s1Addr_place.1, ← s1Addr_place.2.1, hidx, hrow]
        exact ((h.fourth hclk hv).2 w (hw.of_word hsame)).symm
      · have hby : s.bypass i = none := ((if_neg h2).trans (if_neg h3)).trans (if_neg h4)
        rw [hby]
        rcases hread w with heq | ⟨hv, hheld, hrow, hidx⟩
        · exact heq
        · -- The array was being written when it was read: then the fourth stage has the word.
          exfalso
          have hsame : s.s1Addr i / 2 ^ 3 = s.s4Req.addr / 2 ^ 3 :=
            hw.same_word hheld (s1Addr_place.2.1.trans hrow.symm) (s1Addr_place.1.trans hidx.symm)
          refine h4 ?_
          rw [hv, (h.fourth hclk hv).1, sameWord, decide_eq_true hsame]
          rfl

/-- The exceptions are raised for the accesses that are not aligned. -/
theorem aligned_of_not_misaligned (hx : r.typ ≠ .x) (h : r.misaligned = false) :
    r.addr % r.typ.size = 0 := by
  cases htyp : r.typ
  case x => exact absurd htyp hx
  case b | bu => exact Nat.mod_one _
  all_goals simpa [HellaReq.misaligned, htyp, MemTyp.size] using h

theorem accessOk_next (hp : Promised (s, g) i) (h1 : s.s1Valid = true) (hkill : i.kill = false)
    (hrw : (s.s1Req.cmd.isRead || s.s1Req.cmd.isWrite) = true) :
    AccessOk s.s1Req.cmd s.s1Req.typ (BitVec.ofNat 64 (s.s1Addr i)) := by
  have hsized := hp.sized h1 hrw
  have hmis : s.s1Req.misaligned = false := by
    by_contra hne
    have hk := hp.killed h1 hrw (Bool.not_eq_false _ ▸ hne)
    rw [hkill] at hk
    cases hk
  refine ⟨hsized, ?_, hp.atomic h1⟩
  have haligned := aligned_of_not_misaligned hsized hmis
  have hpage : 3 ≤ c.pgidxbits := by
    have := c.row_le
    have := c.off_le
    have := c.untag_le
    omega
  have hlow : s.s1Addr i % 8 = s.s1Req.addr % 8 := s1Addr_low hpage
  rw [BitVec.toNat_ofNat]
  revert haligned
  cases s.s1Req.typ <;> simp only [MemTyp.size] <;> omega

theorem Consistent.second_next (h : Consistent md s m) (hp : Promised (s, g) i)
    (h2 : (s.next md i).s2Valid = true) :
    (∀ w, (s.next md i).s2TagMatchWay w = true ↔ Holds md (s.next md i).s2Req.addr w) ∧
    (∀ w, Holds md (s.next md i).s2Req.addr w →
      (if (s.next md i).s2StoreBypass then (s.next md i).s2StoreBypassData
        else (s.next md i).readWord w)
        = (memNext s i m).word ((s.next md i).s2Req.addr / 2 ^ 3)) ∧
    (((s.next md i).s2Req.cmd.isRead || (s.next md i).s2Req.cmd.isWrite) = true →
      AccessOk (s.next md i).s2Req.cmd (s.next md i).s2Req.typ (s.next md i).s2Req.off) := by
  obtain ⟨h1, hkill⟩ := Bool.and_eq_true_iff.mp (show (s.s1Valid && !i.kill) = true from h2)
  have hclk := (h.first h1).1
  have hmatch : ∀ w, (s.next md i).s2TagMatchWay w = s.s1TagMatchWay md i w := fun w =>
    if_pos hclk
  rw [next_s2Req hclk]
  refine ⟨fun w => ?_, fun w hw => h.word_next hp h1 hw, fun hrw => ?_⟩
  · rw [hmatch]
    exact h.s1TagMatchWay_iff h1 w
  · exact accessOk_next hp h1 (by simpa using hkill) hrw

/-- **The step lemma.** -/
theorem Consistent.next (h : Consistent md s m) (hp : Promised (s, g) i) :
    Consistent md (s.next md i) (memNext s i m) where
  memory _ _ hw := h.memory_next hw
  third := h.third_next
  fourth := h.fourth_next
  first := h.first_next
  second := h.second_next hp

/-! ### Every run -/

theorem now_logNext (s : HellaCache P c) (i : HellaInput) (g : HellaLog) :
    (logNext s i g).now = memNext s i g.now := by
  have hdone : (logNext s i g).done = g.done ++ if s.s2Performs i then [s.s2Req] else [] := rfl
  rw [HellaLog.now, hdone, List.foldl_append, memNext]
  split <;> rfl

theorem reachable_consistent : ∀ x : HellaCache P c × HellaLog,
    ((machine md).restrict Promised).Reachable x → Consistent md x.1 x.2.now := by
  refine Machine.invariant
    (I := fun x : HellaCache P c × HellaLog => Consistent md x.1 x.2.now) ?_ ?_
  · rintro ⟨s, g⟩ ⟨hidle, hback, -, hdone⟩
    have hnow : g.now = g.mem := by rw [HellaLog.now, hdone]; rfl
    rw [hnow]
    refine ⟨fun a w hw => ?_, fun h => absurd (hidle.s3.symm.trans h) Bool.false_ne_true,
      fun _ h => absurd (hidle.s4.symm.trans h) Bool.false_ne_true,
      fun h => absurd (hidle.s1.symm.trans h) Bool.false_ne_true,
      fun h => absurd (hidle.s2.symm.trans h) Bool.false_ne_true⟩
    rw [if_neg fun h => absurd (hidle.s3.symm.trans h.1) Bool.false_ne_true]
    exact (hback a w hw).symm
  · rintro ⟨s, g⟩ i ⟨s', g'⟩ - h ⟨hp, rfl, rfl⟩
    rw [now_logNext]
    exact h.next hp

/-- The requests that are under way. -/
def underWay (s : HellaCache P c) : List HellaReq :=
  (if s.s2Valid then [s.s2Req] else []) ++ if s.s1Valid then [s.s1Req] else []

/-- Requests are performed in the order in which they are accepted. -/
def InOrder (c : HellaCacheConfig) (s : HellaCache P c) (g : HellaLog) : Prop :=
  ((g.done ++ s.underWay).map (HellaReq.key c)).Sublist (g.accepted.map (HellaReq.key c))

theorem InOrder.next (h : InOrder c s g) (hcon : Consistent md s g.now) :
    InOrder c (s.next md i) (logNext s i g) := by
  have hperf : (if s.s2Performs i then [s.s2Req] else []).Sublist
      (if s.s2Valid then [s.s2Req] else []) := by
    split
    · rw [(of_performs ‹_›).1]
      exact List.Sublist.refl _
    · exact List.nil_sublist _
  have hsecond : ((if (s.next md i).s2Valid then [(s.next md i).s2Req] else []).map
      (HellaReq.key c)).Sublist ((if s.s1Valid then [s.s1Req] else []).map (HellaReq.key c)) := by
    split
    · rename_i h2
      obtain ⟨h1, -⟩ := Bool.and_eq_true_iff.mp h2
      have hkey : HellaReq.key c (s.next md i).s2Req = HellaReq.key c s.s1Req := by
        rw [next_s2Req (hcon.first h1).1, HellaReq.key, HellaReq.key, s1Addr_low le_rfl]
      rw [h1, if_pos rfl, List.map_singleton, List.map_singleton, hkey]
    · exact List.nil_sublist _
  have hfirst : (if (s.next md i).s1Valid then [(s.next md i).s1Req] else [])
      = if i.reqValid && i.reqReady then [i.req] else [] := by
    by_cases hfire : (i.reqValid && i.reqReady) = true
    · have hreq : (s.next md i).s1Req = i.req := if_pos (Bool.and_eq_true_iff.mp hfire).1
      rw [if_pos hfire, if_pos (show (s.next md i).s1Valid = true from hfire), hreq]
    · rw [if_neg hfire, if_neg (show ¬(s.next md i).s1Valid = true from hfire)]
  have hdone : (logNext s i g).done = g.done ++ if s.s2Performs i then [s.s2Req] else [] := rfl
  have hacc : (logNext s i g).accepted
      = g.accepted ++ if i.reqValid && i.reqReady then [i.req] else [] := rfl
  rw [InOrder, underWay] at h ⊢
  rw [hdone, hacc, hfirst]
  simp only [List.map_append, ← List.append_assoc] at h ⊢
  refine List.Sublist.append (List.Sublist.trans ?_ h) (List.Sublist.refl _)
  exact ((List.Sublist.refl _).append (hperf.map _)).append hsecond

theorem reachable_inOrder : ∀ x : HellaCache P c × HellaLog,
    ((machine md).restrict Promised).Reachable x → InOrder c x.1 x.2 := by
  refine Machine.invariant (I := fun x : HellaCache P c × HellaLog => InOrder c x.1 x.2) ?_ ?_
  · rintro ⟨s, g⟩ ⟨hidle, -, -, hdone⟩
    rw [InOrder, underWay, hidle.s1, hidle.s2, hdone]
    exact List.nil_sublist _
  · rintro ⟨s, g⟩ i ⟨s', g'⟩ hr h ⟨-, rfl, rfl⟩
    exact h.next (reachable_consistent (s, g) hr)

/-- **A load sees the stores before it.** Requests are performed in the order in which they are
accepted, and the answer to one that reads is what the memory holds after all that were performed
before it. -/
theorem load_returns_last_store (P : CoherencePolicy) [DecidableEq P.ClientState]
    (c : HellaCacheConfig) (md : MetaDataArray P c) :
    (∀ x, ((machine md).restrict Promised).Reachable x → InOrder c x.1 x.2) ∧
    ∀ x, ((machine md).restrict Promised).Reachable x → ∀ i, Promised x i →
      x.1.respValid i = true → x.1.s2Req.cmd.isRead = true →
        x.1.respDataSubword = x.1.s2Req.typ.extend (x.2.now.read x.1.s2Req.access) ∧
        (4 ≤ x.1.s2Req.typ.size →
          x.1.respData = x.1.s2Req.typ.extend (x.2.now.read x.1.s2Req.access)) := by
  refine ⟨reachable_inOrder, ?_⟩
  rintro ⟨s, g⟩ hr i hp hresp hread
  have hcon := reachable_consistent (s, g) hr
  obtain ⟨hmask, hhit⟩ := Bool.and_eq_true_iff.mp hresp
  have hv : s.s2Valid = true := (Bool.and_eq_true_iff.mp hmask).1
  have hok := (hcon.second hv).2.2 (by rw [hread]; rfl)
  have hword := hcon.s2DataWord_eq hv hhit
  have hsc : (s.s2Req.cmd == .xsc) = false := by
    cases hcmd : s.s2Req.cmd <;> rw [hcmd] at hread <;> first | rfl | cases hread
  have hfield : s.s2Req.typ.extend (s.s2Req.typ.field s.s2Req.off s.s2DataWord)
      = s.s2Req.typ.extend (g.now.read s.s2Req.access) := by
    rw [hword, AMOALU.field_word]
    rfl
  constructor
  · rw [← hfield, ← LoadGen.byte_eq _ hok.aligned]
    show s.respDataSubword = _
    rw [respDataSubword, s2Sc, s2ScFail, hsc, Bool.false_and]
    exact BitVec.or_zero
  · intro hsize
    rw [← hfield, ← LoadGen.word_eq _ hok.aligned hsize]
    rfl

/-! ### A store and a load right behind it -/

instance (x : HellaCache P c × HellaLog) (i : HellaInput) : Decidable (Promised x i) :=
  decidable_of_iff
    ((x.1.s1Valid = true → (x.1.s1Req.cmd.isRead || x.1.s1Req.cmd.isWrite) = true →
        x.1.s1Req.misaligned = true → i.kill = true) ∧
      (x.1.s1Valid = true → (x.1.s1Req.cmd.isRead || x.1.s1Req.cmd.isWrite) = true →
        x.1.s1Req.typ ≠ .x) ∧
      (x.1.s1Valid = true → x.1.s1Req.cmd.isAMO = true →
        x.1.s1Req.typ = .w ∨ x.1.s1Req.typ = .d) ∧
      (x.1.s2Valid = true → x.1.s2NackHit = false →
        (x.1.s2Req.cmd.isRead || x.1.s2Req.cmd.isWrite) = true → x.1.s2Hit = true))
    ⟨fun h => ⟨h.1, h.2.1, h.2.2.1, h.2.2.2⟩, fun h => ⟨h.killed, h.sized, h.atomic, h.hits⟩⟩

/-- One way, one double word to a line and one line. -/
def oneLineConfig : HellaCacheConfig where
  nmshr := 1
  nrpq := 1
  nsdq := 1
  refillcycles := 1
  offbits := 3
  untagbits := 3
  tagbits := 29
  nrpq_pos := Nat.one_pos
  nsdq_pos := Nat.one_pos
  ways := 1
  rowwordbits := 0
  pgidxbits := 13
  isNarrowRead := false
  lrscCycles := 32
  row_le := by decide
  off_le := by decide
  untag_le := by decide

/-- The line of address zero is there. -/
def oneLine : MetaDataArray MICoherence oneLineConfig where
  tag _ _ := 0
  state _ _ := .tileValid
  distinct _ w w' _ _ _ := show @Eq (Fin 1) w w' from Subsingleton.elim ..

instance : DecidableEq MICoherence.ClientState := inferInstanceAs (DecidableEq MI.ClientState)

/-- A load of address zero. -/
def loadZero : HellaReq := ⟨.d, 0, 0, 0, .xrd⟩

/-- Nothing under way, over zeros. -/
def zeros : HellaCache MICoherence oneLineConfig where
  s1Valid := false
  s1Req := loadZero
  s1ClkEn := false
  s2Valid := false
  s2Req := loadZero
  s2NackHit := false
  s2TagMatchWay _ := true
  s2State _ := .tileValid
  s2Data _ _ := 0
  s2StoreBypass := false
  s2StoreBypassData := 0
  s3Valid := false
  s3Req := loadZero
  s3Way _ := false
  s4Valid := false
  s4Req := loadZero
  lrscCount := 0
  lrscAddr := 0
  metaSet := 0
  readIdx := 0
  readData _ _ := 0
  data _ _ _ := 0

/-- A request for address zero, with the data of the store before. -/
def issue (cmd : MemCmd) : HellaInput :=
  ⟨true, true, ⟨.d, 0, 42, 0, cmd⟩, false, 0, false, true, false, 0⟩

def afterInputs (inputs : List HellaInput) : HellaCache MICoherence oneLineConfig × HellaLog :=
  inputs.foldl (fun x i => (x.1.next oneLine i, logNext x.1 i x.2)) (zeros, ⟨fun _ _ => 0, [], []⟩)

/-- A store and a load in the next cycle. -/
def afterLoad : HellaCache MICoherence oneLineConfig × HellaLog :=
  afterInputs [issue .xwr, issue .xrd, issue .nop]

/-- The array still has a zero when the load is answered with what was stored. -/
theorem load_returns_last_store_bypassed : afterLoad.1.s2StoreBypass = true ∧
    afterLoad.1.data (0 : Fin 1) 0 (0 : Fin 1) = 0 ∧ afterLoad.1.respDataSubword = 42 := by
  have hstart : ((machine oneLine).restrict Promised).Reachable (afterInputs []) := by
    refine .init ⟨⟨rfl, rfl, rfl, rfl⟩, fun a w _ => ?_, rfl, rfl⟩
    show (0 : Word) = littleEndian (fun _ => 0) 8
    decide
  have hstore : ((machine oneLine).restrict Promised).Reachable (afterInputs [issue .xwr]) :=
    .step (a := issue .xwr) hstart ⟨by decide +kernel, rfl, rfl⟩
  have hload : ((machine oneLine).restrict Promised).Reachable
      (afterInputs [issue .xwr, issue .xrd]) :=
    .step (a := issue .xrd) hstore ⟨by decide +kernel, rfl, rfl⟩
  have hreach : ((machine oneLine).restrict Promised).Reachable afterLoad :=
    .step (a := issue .nop) hload ⟨by decide +kernel, rfl, rfl⟩
  have hanswer := (load_returns_last_store MICoherence oneLineConfig oneLine).2 afterLoad hreach
    (issue .nop) (by decide +kernel) (by decide +kernel) (by decide +kernel)
  exact ⟨by decide +kernel, by decide +kernel, hanswer.1.trans (by decide +kernel)⟩

end HellaCache

end RiscvSoc
