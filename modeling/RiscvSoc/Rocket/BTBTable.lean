import RiscvSoc.Rocket.BTB

/-!
# What the branch target buffer remembers

The table of the pages never has a page twice, and a valid entry always stands for the branch and
the target that were last written to it: a page is replaced only together with the entries that use
it. This holds for any updates, however old the predictions are that they come from.

That only one entry matches an address is another matter. An update goes to the entry that the
prediction came from, or to a new one if there was no prediction. If the branch has got an entry in
the meantime, it has two then. The buffer computes which entries match the branch of an update
(`updateHits`), but nobody looks at it. And the answer to a lookup is the disjunction of the
matching entries.
-/

namespace RiscvSoc

open Bits

theorem counterNext_lt {n k : ℕ} (hn : 2 ≤ n) (hk : k < n) : counterNext n k < n := by
  rw [counterNext]
  split
  · exact Nat.two_pos.trans_le hn
  · rename_i hwrap
    by_cases hpow : n.isPowerOfTwo
    · obtain ⟨j, rfl⟩ := hpow
      have hlog : log2Up (2 ^ j) = j := by
        rw [log2Up, if_neg (Nat.ne_of_gt hn), Nat.clog_pow 2 j Nat.one_lt_two]
      rw [hlog]
      exact Nat.mod_lt _ (Nat.two_pow_pos j)
    · have hlast : k ≠ n - 1 := fun h => hwrap ⟨hpow, h⟩
      exact (Nat.mod_le _ _).trans_lt (by omega)

namespace BTB

variable {c : BTBConfig} {s : BTB c} {i : BTBIn c} {g : Fin c.entries → Option (Written c)}

/-! ### Addresses -/

theorem page_offset (a : BitVec c.vaddrBits) :
    page a * 2 ^ c.matchBits + offset a = a.toNat := by
  rw [page, offset, Nat.shiftRight_eq_div_pow, Nat.div_add_mod']

theorem addr_ext {a b : BitVec c.vaddrBits} (hpage : page a = page b)
    (hoffset : offset a = offset b) : a = b := by
  refine BitVec.eq_of_toNat_eq ?_
  rw [← page_offset a, ← page_offset b, hpage, hoffset]

/-! ### The table of the pages -/

variable (s) in
/-- The page of the address is in this place. -/
def Holds (p : Fin c.pages) (a : BitVec c.vaddrBits) : Prop :=
  s.pageValid p = true ∧ s.pages p = page a

theorem pageMatch_iff {a : BitVec c.vaddrBits} {p : Fin c.pages} :
    s.pageMatch a p = true ↔ s.Holds p a := by
  rw [pageMatch, Bool.and_eq_true, beq_iff_eq, Holds, and_comm]

variable (s) in
/-- Valid pages are different. -/
def DistinctPages : Prop :=
  ∀ p q, s.pageValid p = true → s.pageValid q = true → s.pages p = s.pages q → p = q

theorem DistinctPages.eq (h : s.DistinctPages) {a : BitVec c.vaddrBits} {p q : Fin c.pages}
    (hp : s.Holds p a) (hq : s.Holds q a) : p = q := h p q hp.1 hq.1 (hp.2.trans hq.2.symm)

theorem succ_mod_two (a : Fin c.pages) : ((a + 1 : Fin c.pages) : ℕ) % 2 ≠ (a : ℕ) % 2 := by
  have hone : ((1 : Fin c.pages) : ℕ) = 1 := Nat.mod_eq_of_lt (Nat.lt_of_succ_le c.two_le_pages)
  rw [Fin.val_add, hone, Nat.mod_mod_of_dvd _ (Nat.dvd_of_mod_eq_zero c.even_pages)]
  omega

theorem succ_ne (a : Fin c.pages) : a + 1 ≠ a := fun h => succ_mod_two a (by rw [h])

variable (s) in
/-- The place for the page of the branch. -/
def IdxSlot (a : Fin c.pages) : Prop := ∀ p, s.idxPageUpdateOH p = true ↔ p = a

theorem exists_idxSlot (h : s.DistinctPages) (hrepl : s.nextPageRepl < c.pages) :
    ∃ a, s.IdxSlot a := by
  cases huse : s.useUpdatePageHit with
  | true =>
    obtain ⟨a, ha⟩ := orR_eq_true.mp huse
    refine ⟨a, fun p => ?_⟩
    rw [idxPageUpdateOH, huse, if_pos rfl]
    refine ⟨fun hp => h.eq (pageMatch_iff.mp hp) (pageMatch_iff.mp ha), ?_⟩
    rintro rfl
    exact ha
  | false =>
    refine ⟨⟨s.nextPageRepl, hrepl⟩, fun p => ?_⟩
    rw [idxPageUpdateOH, huse, if_neg (by simp), idxPageRepl, decide_eq_true_eq,
      Fin.ext_iff, eq_comm]

variable {a : Fin c.pages}

theorem samePage_of_doTgt (h : s.doTgtPageRepl i = true) : s.samePage i = false := by
  rw [doTgtPageRepl, Bool.and_eq_true, Bool.and_eq_true, Bool.not_eq_true'] at h
  exact h.1.2

theorem usePageHit_of_doTgt (h : s.doTgtPageRepl i = true) : s.usePageHit i = false :=
  (Bool.not_eq_true' _).mp (Bool.and_eq_true_iff.mp h).2

theorem useUpdatePageHit_of_doIdx (h : s.doIdxPageRepl = true) : s.useUpdatePageHit = false :=
  (Bool.not_eq_true' _).mp (Bool.and_eq_true_iff.mp h).2

variable {p : Fin c.pages} {x : BitVec c.vaddrBits}

section

variable (ha : s.IdxSlot a)
include ha

theorem IdxSlot.idxPageReplEn_iff :
    s.idxPageReplEn p = true ↔ s.doIdxPageRepl = true ∧ p = a := by
  rw [idxPageReplEn, Bool.and_eq_true]
  refine and_congr_right fun hdo => ?_
  rw [← ha p, idxPageUpdateOH, useUpdatePageHit_of_doIdx hdo, if_neg (by simp)]

theorem IdxSlot.tgtPageRepl_iff (hsame : s.samePage i = false) : s.tgtPageRepl i p = true ↔
    p = a + 1 := by
  rw [tgtPageRepl, hsame, if_neg (by simp), ha, sub_eq_iff_eq_add]

theorem IdxSlot.pageReplEn_iff : s.pageReplEn i p = true ↔
    s.doIdxPageRepl = true ∧ p = a ∨ s.doTgtPageRepl i = true ∧ p = a + 1 := by
  rw [pageReplEn, Bool.or_eq_true, ha.idxPageReplEn_iff, tgtPageReplEn, Bool.and_eq_true]
  exact or_congr_right (and_congr_right fun hdo => ha.tgtPageRepl_iff (samePage_of_doTgt hdo))

theorem IdxSlot.idxWritesEven_eq :
    s.idxWritesEven = decide ((a : ℕ) % 2 = 0) := by
  rw [Bool.eq_iff_iff, idxWritesEven, orR_eq_true, decide_eq_true_eq]
  constructor
  · rintro ⟨p, hp⟩
    obtain ⟨hoh, heven⟩ := Bool.and_eq_true_iff.mp hp
    rw [← (ha p).mp hoh]
    exact of_decide_eq_true heven
  · intro heven
    exact ⟨a, Bool.and_eq_true_iff.mpr ⟨(ha a).mpr rfl, decide_eq_true heven⟩⟩

theorem IdxSlot.bank_idx :
    s.bankEn i a = s.doIdxPageRepl ∧ s.bankData i a = page s.update.pc := by
  rw [bankEn, bankData, ha.idxWritesEven_eq]
  by_cases heven : (a : ℕ) % 2 = 0
  · rw [if_pos heven, if_pos heven, decide_eq_true heven]
    exact ⟨rfl, rfl⟩
  · rw [if_neg heven, if_neg heven, decide_eq_false heven]
    exact ⟨rfl, rfl⟩

theorem IdxSlot.bank_tgt :
    s.bankEn i (a + 1) = s.doTgtPageRepl i ∧ s.bankData i (a + 1) = page i.req := by
  have hparity := succ_mod_two a
  rw [bankEn, bankData, ha.idxWritesEven_eq]
  by_cases heven : (a : ℕ) % 2 = 0
  · have hodd : ¬((a + 1 : Fin c.pages) : ℕ) % 2 = 0 := by omega
    rw [if_neg hodd, if_neg hodd, decide_eq_true heven]
    exact ⟨rfl, rfl⟩
  · have heven' : ((a + 1 : Fin c.pages) : ℕ) % 2 = 0 := by omega
    rw [if_pos heven', if_pos heven', decide_eq_false heven]
    exact ⟨rfl, rfl⟩

/-- **The places that are written.** -/
theorem IdxSlot.pageWen_iff : s.pageWen i p = true ↔
    s.writes = true ∧
      (s.doIdxPageRepl = true ∧ p = a ∨ s.doTgtPageRepl i = true ∧ p = a + 1) := by
  rw [pageWen, Bool.and_eq_true, Bool.and_eq_true, and_assoc, ha.pageReplEn_iff]
  refine and_congr_right fun _ => ⟨And.right, fun h => ⟨?_, h⟩⟩
  rcases h with ⟨hdo, rfl⟩ | ⟨hdo, rfl⟩
  · rw [ha.bank_idx.1, hdo]
  · rw [ha.bank_tgt.1, hdo]

end

theorem holds_next_of_kept (h : s.Holds p x) (hinv : i.invalidate = false)
    (hkept : s.pageWen i p = false) : (s.next i).Holds p x := by
  refine ⟨?_, ?_⟩
  · show (!i.invalidate && (s.pageWen i p || s.pageValid p)) = true
    rw [hinv, h.1, Bool.or_true]
    rfl
  · show (if s.pageWen i p then _ else _) = _
    rw [hkept]
    exact h.2

theorem holds_next_of_wen (hinv : i.invalidate = false) (hwen : s.pageWen i p = true)
    (hdata : s.bankData i p = page x) :
    (s.next i).Holds p x := by
  refine ⟨?_, ?_⟩
  · show (!i.invalidate && (s.pageWen i p || s.pageValid p)) = true
    rw [hinv, hwen]
    rfl
  · show (if s.pageWen i p then _ else _) = _
    rw [hwen]
    exact hdata

/-- A page that is valid after a cycle was written, or it was there before. -/
theorem valid_next (h : (s.next i).pageValid p = true) :
    s.pageWen i p = true ∧ (s.next i).pages p = s.bankData i p ∨
      s.pageWen i p = false ∧ s.pageValid p = true ∧ (s.next i).pages p = s.pages p := by
  have hvalid := (Bool.and_eq_true_iff.mp h).2
  show s.pageWen i p = true ∧ (if s.pageWen i p then _ else _) = _ ∨
    s.pageWen i p = false ∧ s.pageValid p = true ∧ (if s.pageWen i p then _ else _) = _
  cases hwen : s.pageWen i p with
  | true => exact .inl ⟨rfl, rfl⟩
  | false =>
    rw [hwen, Bool.false_or] at hvalid
    exact .inr ⟨rfl, hvalid, rfl⟩

theorem IdxSlot.ne_of_kept (ha : s.IdxSlot a) {p q : Fin c.pages} (hp : s.pageWen i p = true)
    (hkept : s.pageWen i q = false) (hq : s.pageValid q = true) : s.pages q ≠ s.bankData i p := by
  intro heq
  obtain ⟨hwrites, ⟨hdo, rfl⟩ | ⟨hdo, rfl⟩⟩ := ha.pageWen_iff.mp hp
  · -- the page of the branch would have been found
    have huse : s.useUpdatePageHit = true :=
      orR_eq_true.mpr ⟨q, pageMatch_iff.mpr ⟨hq, heq.trans ha.bank_idx.2⟩⟩
    exact Bool.noConfusion (huse.symm.trans (useUpdatePageHit_of_doIdx hdo))
  · -- the page of the target would have been found, and it is not the one that is given up
    have huse : s.usePageHit i = true := by
      refine orR_eq_true.mpr ⟨q, ?_⟩
      rw [Bool.and_eq_true, Bool.not_eq_true']
      refine ⟨pageMatch_iff.mpr ⟨hq, heq.trans ha.bank_tgt.2⟩, ?_⟩
      by_contra hrepl
      obtain ⟨hidx, rfl⟩ := ha.idxPageReplEn_iff.mp (Bool.eq_true_of_not_eq_false hrepl)
      rw [ha.pageWen_iff.mpr ⟨hwrites, .inl ⟨hidx, rfl⟩⟩] at hkept
      cases hkept
    exact Bool.noConfusion (huse.symm.trans (usePageHit_of_doTgt hdo))

theorem DistinctPages.step (h : s.DistinctPages) (hrepl : s.nextPageRepl < c.pages) :
    (s.next i).DistinctPages := by
  obtain ⟨a, ha⟩ := exists_idxSlot h hrepl
  intro p q hp hq heq
  rcases valid_next hp with ⟨hwp, hdp⟩ | ⟨hkp, hvp, hdp⟩ <;>
    rcases valid_next hq with ⟨hwq, hdq⟩ | ⟨hkq, hvq, hdq⟩ <;> rw [hdp, hdq] at heq
  · obtain ⟨-, ⟨-, rfl⟩ | ⟨hdo, rfl⟩⟩ := ha.pageWen_iff.mp hwp <;>
      obtain ⟨-, ⟨-, rfl⟩ | ⟨hdo', rfl⟩⟩ := ha.pageWen_iff.mp hwq
    · rfl
    · rw [ha.bank_idx.2, ha.bank_tgt.2] at heq
      have hsame : s.samePage i = true := beq_iff_eq.mpr heq
      exact Bool.noConfusion (hsame.symm.trans (samePage_of_doTgt hdo'))
    · rw [ha.bank_idx.2, ha.bank_tgt.2] at heq
      have hsame : s.samePage i = true := beq_iff_eq.mpr heq.symm
      exact Bool.noConfusion (hsame.symm.trans (samePage_of_doTgt hdo))
    · rfl
  · exact absurd heq.symm (ha.ne_of_kept hwp hkq hvq)
  · exact absurd heq (ha.ne_of_kept hwq hkp hvp)
  · exact h p q hvp hvq heq

theorem nextPageRepl_step (h : s.nextPageRepl < c.pages) : (s.next i).nextPageRepl < c.pages := by
  show (if _ then _ else _) < _
  split
  · exact counterNext_lt c.two_le_pages h
  · exact h

/-! ### The entries -/

variable {e : Fin c.entries} {w : Written c}

variable (s e w) in
/-- The entry stands for this branch and this target. -/
structure Entry : Prop where
  idxs : s.idxs e = offset w.pc
  tgts : s.tgts e = offset w.target
  idxPage : ∃ p : Fin c.pages, s.idxPages e = p ∧ s.Holds p w.pc
  tgtPage : ∃ q : Fin c.pages, s.tgtPages e = q ∧ s.Holds q w.target

variable (s i e) in
/-- The entry stays as it is: it is not written, and its pages are not replaced. -/
def Survives : Prop :=
  s.idxValid e = true ∧ (s.writes = true → s.waddr ≠ e ∧ s.replaced i e = false)

variable (s i) in
/-- An entry is written for a branch that has another entry, and that one stays. -/
def Duplicates : Prop :=
  i.invalidate = false ∧ ∃ w e, s.entryWen w = true ∧ s.Survives i e ∧ s.updateHits e = true

theorem updateTarget_of_writes (h : s.writes = true) (hvalid : s.updateValid = true) :
    s.updateTarget = true := by
  have hnot := (Bool.and_eq_true_iff.mp h).2
  rwa [hvalid, Bool.true_and, Bool.not_not] at hnot

theorem entryWen_iff : s.entryWen e = true ↔
    s.writes = true ∧ s.waddr = e ∧ s.updateTarget = true := by
  rw [entryWen, Bool.and_eq_true, Bool.and_eq_true, decide_eq_true_eq, and_assoc]

theorem Survives.not_entryWen (h : s.Survives i e) : s.entryWen e = false := by
  by_contra hwen
  obtain ⟨hwrites, haddr, -⟩ := entryWen_iff.mp (Bool.eq_true_of_not_eq_false hwen)
  exact (h.2 hwrites).1 haddr

/-- An entry that is valid after a cycle was written, or it survived. -/
theorem idxValid_next : (s.next i).idxValid e = true ↔
    i.invalidate = false ∧ (s.entryWen e = true ∨ s.Survives i e) := by
  show (!i.invalidate && if s.writes then if s.waddr = e then s.updateValid
    else s.idxValid e && !s.replaced i e else s.idxValid e) = true ↔ _
  rw [Bool.and_eq_true, Bool.not_eq_true', Survives, entryWen_iff]
  refine and_congr_right fun _ => ?_
  by_cases hwrites : s.writes = true
  · rw [if_pos hwrites]
    by_cases haddr : s.waddr = e
    · rw [if_pos haddr]
      constructor
      · exact fun h => .inl ⟨hwrites, haddr, updateTarget_of_writes hwrites h⟩
      · rintro (⟨-, -, h⟩ | ⟨-, h⟩)
        · exact (Bool.and_eq_true_iff.mp h).1
        · exact absurd haddr (h hwrites).1
    · rw [if_neg haddr, Bool.and_eq_true, Bool.not_eq_true']
      constructor
      · exact fun h => .inr ⟨h.1, fun _ => ⟨haddr, h.2⟩⟩
      · rintro (⟨-, h, -⟩ | ⟨h, hrest⟩)
        · exact absurd h haddr
        · exact ⟨h, (hrest hwrites).2⟩
  · rw [if_neg hwrites]
    constructor
    · exact fun h => .inr ⟨h, fun h' => absurd h' hwrites⟩
    · rintro (⟨h, -⟩ | ⟨h, -⟩)
      · exact absurd h hwrites
      · exact h

theorem Survives.kept (h : s.Survives i e) {p : Fin c.pages}
    (hp : s.idxPages e = p ∨ s.tgtPages e = p) : s.pageWen i p = false := by
  by_contra hwen
  have hwen' := Bool.eq_true_of_not_eq_false hwen
  rw [pageWen, Bool.and_eq_true, Bool.and_eq_true] at hwen'
  obtain ⟨⟨hwrites, -⟩, hrepl⟩ := hwen'
  have hreplaced : s.replaced i e = true := by
    refine orR_eq_true.mpr ⟨p, ?_⟩
    rw [hrepl, Bool.true_and, Bool.or_eq_true, idxPagesOH, tgtPagesOH, decide_eq_true_eq,
      decide_eq_true_eq]
    exact hp
  exact Bool.noConfusion (hreplaced.symm.trans (h.2 hwrites).2)

theorem Entry.step_of_survives (h : s.Entry e w) (hinv : i.invalidate = false)
    (hsurv : s.Survives i e) : (s.next i).Entry e w := by
  have hkeep := hsurv.not_entryWen
  obtain ⟨p, hp, hpage⟩ := h.idxPage
  obtain ⟨q, hq, htgt⟩ := h.tgtPage
  refine ⟨?_, ?_, ⟨p, ?_, holds_next_of_kept hpage hinv (hsurv.kept (.inl hp))⟩,
    ⟨q, ?_, holds_next_of_kept htgt hinv (hsurv.kept (.inr hq))⟩⟩
  · show (if s.entryWen e then _ else _) = _
    rw [hkeep]
    exact h.idxs
  · show (if s.entryWen e then _ else _) = _
    rw [hkeep]
    exact h.tgts
  · show (if s.entryWen e then _ else _) = _
    rw [hkeep]
    exact hp
  · show (if s.entryWen e then _ else _) = _
    rw [hkeep]
    exact hq

/-- The page of the branch is in its place when the entry is written. -/
theorem IdxSlot.holds_idx {a : Fin c.pages} (ha : s.IdxSlot a) (hinv : i.invalidate = false)
    (hwrites : s.writes = true) (htarget : s.updateTarget = true) :
    (s.next i).Holds a s.update.pc := by
  cases hdo : s.doIdxPageRepl with
  | true =>
    exact holds_next_of_wen hinv (ha.pageWen_iff.mpr ⟨hwrites, .inl ⟨hdo, rfl⟩⟩) ha.bank_idx.2
  | false =>
    rw [doIdxPageRepl, htarget, Bool.true_and, Bool.not_eq_false'] at hdo
    have hhit : s.updatePageHit a = true := by
      have hoh := (ha a).mpr rfl
      rwa [idxPageUpdateOH, hdo, if_pos rfl] at hoh
    refine holds_next_of_kept (pageMatch_iff.mp hhit) hinv ?_
    by_contra hwen
    obtain ⟨-, ⟨hdo', -⟩ | ⟨-, heq⟩⟩ := ha.pageWen_iff.mp (Bool.eq_true_of_not_eq_false hwen)
    · exact Bool.noConfusion (hdo.symm.trans (useUpdatePageHit_of_doIdx hdo'))
    · exact succ_ne a heq.symm

theorem IdxSlot.exists_tgtSlot {a : Fin c.pages} (ha : s.IdxSlot a) (h : s.DistinctPages)
    (hinv : i.invalidate = false) (hwrites : s.writes = true) (htarget : s.updateTarget = true) :
    ∃ b, (∀ p, s.tgtPageUpdateOH i p = true ↔ p = b) ∧ (s.next i).Holds b i.req := by
  cases huse : s.usePageHit i with
  | true =>
    obtain ⟨b, hb⟩ := orR_eq_true.mp huse
    rw [Bool.and_eq_true, Bool.not_eq_true'] at hb
    obtain ⟨hhit, hkept⟩ := hb
    refine ⟨b, fun p => ?_, holds_next_of_kept (pageMatch_iff.mp hhit) hinv ?_⟩
    · rw [tgtPageUpdateOH, huse, if_pos rfl]
      refine ⟨fun hp => h.eq (pageMatch_iff.mp hp) (pageMatch_iff.mp hhit), ?_⟩
      rintro rfl
      exact hhit
    · by_contra hwen
      obtain ⟨-, hidx | ⟨hdo, -⟩⟩ := ha.pageWen_iff.mp (Bool.eq_true_of_not_eq_false hwen)
      · exact Bool.noConfusion ((ha.idxPageReplEn_iff.mpr hidx).symm.trans hkept)
      · exact Bool.noConfusion (huse.symm.trans (usePageHit_of_doTgt hdo))
  | false =>
    cases hsame : s.samePage i with
    | true =>
      refine ⟨a, fun p => ?_, ?_⟩
      · rw [tgtPageUpdateOH, huse, if_neg (by simp), tgtPageRepl, hsame, if_pos rfl, ha]
      · have hpage := ha.holds_idx hinv hwrites htarget
        exact ⟨hpage.1, hpage.2.trans (beq_iff_eq.mp hsame)⟩
    | false =>
      have hdo : s.doTgtPageRepl i = true := by
        rw [doTgtPageRepl, htarget, hsame, huse]
        rfl
      refine ⟨a + 1, fun p => ?_, holds_next_of_wen hinv
        (ha.pageWen_iff.mpr ⟨hwrites, .inr ⟨hdo, rfl⟩⟩) ha.bank_tgt.2⟩
      rw [tgtPageUpdateOH, huse, if_neg (by simp), ha.tgtPageRepl_iff hsame]

theorem entry_next_of_wen (h : s.DistinctPages) (hrepl : s.nextPageRepl < c.pages)
    (hinv : i.invalidate = false) (hwen : s.entryWen e = true) :
    (s.next i).Entry e ⟨s.update.pc, i.req⟩ := by
  obtain ⟨hwrites, -, htarget⟩ := entryWen_iff.mp hwen
  obtain ⟨a, ha⟩ := exists_idxSlot h hrepl
  obtain ⟨b, hb, htgt⟩ := ha.exists_tgtSlot h hinv hwrites htarget
  refine ⟨?_, ?_, ⟨a, ?_, ha.holds_idx hinv hwrites htarget⟩, ⟨b, ?_, htgt⟩⟩
  · show (if s.entryWen e then _ else _) = _
    rw [hwen]
    rfl
  · show (if s.entryWen e then _ else _) = _
    rw [hwen]
    rfl
  · show (if s.entryWen e then _ else _) = _
    rw [hwen, if_pos rfl]
    exact ohIndex_eq ha
  · show (if s.entryWen e then _ else _) = _
    rw [hwen, if_pos rfl]
    exact ohIndex_eq hb

variable (s g) in
/-- Every valid entry stands for what was last written to it. -/
def Recorded : Prop := ∀ e, s.idxValid e = true → ∃ w, g e = some w ∧ s.Entry e w

theorem Recorded.step (h : s.Recorded g) (hpages : s.DistinctPages)
    (hrepl : s.nextPageRepl < c.pages) : (s.next i).Recorded (s.note i g) := by
  intro e he
  obtain ⟨hinv, hwen | hsurv⟩ := idxValid_next.mp he
  · exact ⟨_, if_pos hwen, entry_next_of_wen hpages hrepl hinv hwen⟩
  · obtain ⟨w, hw, hentry⟩ := h e hsurv.1
    refine ⟨w, ?_, hentry.step_of_survives hinv hsurv⟩
    rw [note, hsurv.not_entryWen, if_neg (by simp), hw]

/-! ### Lookups -/

theorem tagMatch_iff (hrec : s.Recorded g) {x : BitVec c.vaddrBits} :
    s.tagMatch x (s.pageMatch x) e = true ↔
      s.idxValid e = true ∧ ∃ w, g e = some w ∧ w.pc = x := by
  rw [tagMatch, Bool.and_eq_true, Bool.and_eq_true, beq_iff_eq, orR_eq_true, and_assoc]
  refine and_congr_right fun hvalid => ?_
  obtain ⟨w, hw, hentry⟩ := hrec e hvalid
  obtain ⟨p, hp, hpage⟩ := hentry.idxPage
  constructor
  · rintro ⟨hidx, q, hq⟩
    rw [Bool.and_eq_true, idxPagesOH, decide_eq_true_eq, pageMatch_iff] at hq
    obtain rfl : q = p := Fin.ext (hq.1.symm.trans hp)
    exact ⟨w, hw, addr_ext (hpage.2.symm.trans hq.2.2) (hentry.idxs.symm.trans hidx)⟩
  · rintro ⟨w', hw', rfl⟩
    obtain rfl : w = w' := Option.some.inj (hw.symm.trans hw')
    refine ⟨hentry.idxs, p, ?_⟩
    rw [Bool.and_eq_true, idxPagesOH, decide_eq_true_eq, pageMatch_iff]
    exact ⟨hp, hpage⟩

variable (s) in
/-- At most one valid entry matches an address. -/
def Unique : Prop :=
  ∀ x e f, s.tagMatch x (s.pageMatch x) e = true → s.tagMatch x (s.pageMatch x) f = true → e = f

/-- **Only a duplicate makes two entries match.** -/
theorem Unique.step_iff (h : s.Unique) (hpages : s.DistinctPages) (hrec : s.Recorded g)
    (hrepl : s.nextPageRepl < c.pages) : (s.next i).Unique ↔ ¬s.Duplicates i := by
  have hpages' : (s.next i).DistinctPages := hpages.step hrepl
  have hrec' : (s.next i).Recorded (s.note i g) := hrec.step hpages hrepl
  have hnew : ∀ {e}, s.entryWen e = true → s.note i g e = some ⟨s.update.pc, i.req⟩ := fun hwen =>
    if_pos hwen
  have hold : ∀ {e}, s.Survives i e → s.note i g e = g e := by
    intro e hsurv
    rw [note, hsurv.not_entryWen, if_neg (by simp)]
  constructor
  · rintro hunique ⟨hinv, w, e, hwen, hsurv, hhit⟩
    obtain ⟨-, r, hr, hpc⟩ := (tagMatch_iff hrec).mp hhit
    have hmatch_w := (tagMatch_iff hrec' (e := w)).mpr
      ⟨idxValid_next.mpr ⟨hinv, .inl hwen⟩, _, hnew hwen, rfl⟩
    have hmatch_e := (tagMatch_iff hrec' (e := e)).mpr
      ⟨idxValid_next.mpr ⟨hinv, .inr hsurv⟩, r, (hold hsurv).trans hr, hpc⟩
    obtain rfl : w = e := hunique _ _ _ hmatch_w hmatch_e
    exact Bool.noConfusion (hwen.symm.trans hsurv.not_entryWen)
  · intro hok x e f he hf
    obtain ⟨hve, we, hwe, rfl⟩ := (tagMatch_iff hrec').mp he
    obtain ⟨hvf, wf, hwf, hpc⟩ := (tagMatch_iff hrec').mp hf
    obtain ⟨hinv, hwen_e | hsurv_e⟩ := idxValid_next.mp hve <;>
      obtain ⟨-, hwen_f | hsurv_f⟩ := idxValid_next.mp hvf
    · have haddr_e := (entryWen_iff.mp hwen_e).2.1
      have haddr_f := (entryWen_iff.mp hwen_f).2.1
      exact Fin.ext (haddr_e.symm.trans haddr_f)
    · obtain rfl : _ = we := Option.some.inj ((hnew hwen_e).symm.trans hwe)
      exact absurd ⟨hinv, e, f, hwen_e, hsurv_f, (tagMatch_iff hrec).mpr
        ⟨hsurv_f.1, wf, (hold hsurv_f).symm.trans hwf, hpc⟩⟩ hok
    · obtain rfl : _ = wf := Option.some.inj ((hnew hwen_f).symm.trans hwf)
      exact absurd ⟨hinv, f, e, hwen_f, hsurv_e, (tagMatch_iff hrec).mpr
        ⟨hsurv_e.1, we, (hold hsurv_e).symm.trans hwe, hpc.symm⟩⟩ hok
    · exact h we.pc e f
        ((tagMatch_iff hrec).mpr ⟨hsurv_e.1, we, (hold hsurv_e).symm.trans hwe, rfl⟩)
        ((tagMatch_iff hrec).mpr ⟨hsurv_f.1, wf, (hold hsurv_f).symm.trans hwf, hpc⟩)

theorem Entry.answer (h : s.Entry e w) (honly : ∀ f, s.hits i f = true ↔ f = e) :
    s.tableTarget i = w.target ∧ s.respEntry i = e ∧ s.doPeek i = s.useRAS e := by
  have hsel : ∀ f, (s.hits i f || decide (c.entries = 1)) = true ↔ f = e := by
    intro f
    rw [Bool.or_eq_true, honly, decide_eq_true_eq]
    refine ⟨fun hf => hf.elim id fun hone => ?_, .inl⟩
    exact Fin.ext (by omega)
  obtain ⟨q, hq, -, hpage⟩ := h.tgtPage
  have hpageSel : ∀ p, s.tgtPageSel i p = true ↔ p = q := by
    intro p
    rw [tgtPageSel, orR_eq_true]
    constructor
    · rintro ⟨f, hf⟩
      obtain ⟨hf, hoh⟩ := Bool.and_eq_true_iff.mp hf
      obtain rfl := (hsel f).mp hf
      exact Fin.ext ((of_decide_eq_true hoh).symm.trans hq)
    · rintro rfl
      exact ⟨e, Bool.and_eq_true_iff.mpr ⟨(hsel e).mpr rfl, decide_eq_true hq⟩⟩
  refine ⟨?_, ohIndex_eq honly, ?_⟩
  · rw [tableTarget, mux1H_eq hpageSel, mux1H_eq honly, hpage, h.tgts, page_offset,
      BitVec.ofNat_toNat, BitVec.setWidth_eq]
  · rw [doPeek, Bool.eq_iff_iff, orR_eq_true]
    constructor
    · rintro ⟨f, hf⟩
      obtain ⟨hf, hras⟩ := Bool.and_eq_true_iff.mp hf
      rwa [(hsel f).mp hf] at hras
    · intro hras
      exact ⟨e, Bool.and_eq_true_iff.mpr ⟨(hsel e).mpr rfl, hras⟩⟩

variable (s g) in
/-- At most one entry matches an address, and the answer of the table is what was last written to
it. Only for a return may the return-address stack know better. -/
structure Answers : Prop where
  unique : s.Unique
  answer : ∀ i e, s.hits i e = true → ∃ w, g e = some w ∧ w.pc = i.req ∧
    s.tableTarget i = w.target ∧ s.respEntry i = e ∧
    s.respTarget i = if s.useRAS e then i.rasTop.getD w.target else w.target

theorem Unique.answers (h : s.Unique) (hrec : s.Recorded g) : s.Answers g := by
  refine ⟨h, fun i e he => ?_⟩
  obtain ⟨hvalid, w, hw, hpc⟩ := (tagMatch_iff hrec).mp he
  obtain ⟨w', hw', hentry⟩ := hrec e hvalid
  obtain rfl : w = w' := Option.some.inj (hw.symm.trans hw')
  have honly : ∀ f, s.hits i f = true ↔ f = e := by
    refine fun f => ⟨fun hf => h i.req f e hf he, ?_⟩
    rintro rfl
    exact he
  obtain ⟨htarget, hnum, hpeek⟩ := hentry.answer honly
  refine ⟨w, hw, hpc, htarget, hnum, ?_⟩
  rw [respTarget, hpeek, htarget]

/-! ### Runs -/

variable (s g) in
/-- What holds for any updates. -/
structure TableInv : Prop where
  distinct : s.DistinctPages
  recorded : s.Recorded g
  repl : s.nextPageRepl < c.pages

theorem TableInv.step (h : s.TableInv g) : (s.next i).TableInv (s.note i g) where
  distinct := h.distinct.step h.repl
  recorded := h.recorded.step h.distinct h.repl
  repl := nextPageRepl_step h.repl

theorem IsReset.tableInv (h : s.IsReset) : s.TableInv g where
  distinct p _ hp := Bool.noConfusion (hp.symm.trans (h.pageValid p))
  recorded e he := Bool.noConfusion (he.symm.trans (h.idxValid e))
  repl := by
    rw [h.nextPageRepl]
    exact Nat.two_pos.trans_le c.two_le_pages

theorem IsReset.unique (h : s.IsReset) : s.Unique := by
  intro x e f he
  rw [tagMatch, h.idxValid e] at he
  exact Bool.noConfusion he

theorem reachable_tableInv : ∀ x, (machine c).Reachable x → x.1.TableInv x.2 := by
  refine Machine.invariant ?_ ?_
  · rintro ⟨s, g⟩ ⟨hreset, -⟩
    exact hreset.tableInv
  · rintro ⟨s, g⟩ i ⟨s', g'⟩ - h ⟨hs, hg⟩
    obtain rfl : s' = s.next i := hs
    obtain rfl : g' = s.note i g := hg
    exact h.step

theorem reachable_unique : ∀ x, ((machine c).restrict fun x i => ¬x.1.Duplicates i).Reachable x →
    x.1.TableInv x.2 ∧ x.1.Unique := by
  refine Machine.invariant ?_ ?_
  · rintro ⟨s, g⟩ ⟨hreset, -⟩
    exact ⟨hreset.tableInv, hreset.unique⟩
  · rintro ⟨s, g⟩ i ⟨s', g'⟩ - ⟨h, hunique⟩ ⟨hok, hs, hg⟩
    obtain rfl : s' = s.next i := hs
    obtain rfl : g' = s.note i g := hg
    exact ⟨h.step, (hunique.step_iff h.distinct h.recorded h.repl).mpr hok⟩

end BTB

/-- **The branch target buffer**, of any size. In every run, whatever the updates are, the valid
pages are distinct and every valid entry stands for the branch and the target that were last written
to it. In a run in which no entry is written for a branch that has another entry, which stays, at
most one entry matches an address, and a hit answers what was last written; and if such an entry is
written, two entries match. -/
theorem btb_consistent (c : BTBConfig) :
    (∀ x, (BTB.machine c).Reachable x → x.1.DistinctPages ∧ x.1.Recorded x.2) ∧
    ∀ x, ((BTB.machine c).restrict fun x i => ¬x.1.Duplicates i).Reachable x →
      x.1.Answers x.2 ∧ ∀ i, (x.1.next i).Unique ↔ ¬x.1.Duplicates i := by
  refine ⟨fun x hx => ?_, fun x hx => ?_⟩
  · have h := BTB.reachable_tableInv x hx
    exact ⟨h.distinct, h.recorded⟩
  · obtain ⟨h, hunique⟩ := BTB.reachable_unique x hx
    exact ⟨hunique.answers h.recorded,
      fun i => hunique.step_iff h.distinct h.recorded h.repl⟩

namespace BTB

/-! ### A branch that jumps to itself -/

/-- Eight entries. -/
def eight : BTBConfig := ⟨43, 13, 8⟩

/-- The state after a reset. -/
def start : BTB eight where
  idxValid _ := false
  idxs _ := 0
  idxPages _ := 0
  tgts _ := 0
  tgtPages _ := 0
  useRAS _ := false
  pages _ := 0
  pageValid _ := false
  updateValidReg := false
  update := ⟨false, 0, 0, false, false⟩
  nextRepl := 0
  nextPageRepl := 0

theorem start_isReset : start.IsReset := ⟨fun _ => rfl, fun _ => rfl, rfl, rfl, rfl⟩

def idle : BTBIn eight := ⟨0x2000, none, false, none⟩

/-- The branch was not predicted, and taken. -/
def jump : BTBIn eight := ⟨0x2000, some ⟨false, 0, 0x2000, false, true⟩, false, none⟩

theorem btb_consistent_jump :
    (Machine.cycles next note [jump, idle] (start, fun _ => none)).1.Answers
    (Machine.cycles next note [jump, idle] (start, fun _ => none)).2 := by
  have hstart : ((machine eight).restrict fun x i => ¬x.1.Duplicates i).Reachable
      (start, fun _ => none) := .init ⟨start_isReset, rfl⟩
  refine ((btb_consistent eight).2 _
    (Machine.reachable_restrict_cycles hstart [jump, idle] ⟨?_, ?_, trivial⟩)).1
  · rintro ⟨-, w, e, -, hsurv, -⟩
    exact absurd hsurv.1 Bool.false_ne_true
  · rintro ⟨-, w, e, -, hsurv, -⟩
    exact absurd hsurv.1 (by clear hsurv; revert e; decide)

/-- **Two entries for one branch.** It jumps to itself, and is fetched again before it is written.
-/
theorem btb_duplicates : ¬∀ (c : BTBConfig) (x : BTB c × (Fin c.entries → Option (Written c))),
    (machine c).Reachable x → x.1.Unique := by
  intro h
  have hstart : (machine eight).Reachable (start, fun _ => none) := .init ⟨start_isReset, rfl⟩
  have hunique := h eight _ (Machine.reachable_cycles hstart [jump, jump, idle])
  have htwo := hunique 0x2000 (0 : Fin 8) (1 : Fin 8) (by decide +kernel) (by decide +kernel)
  exact absurd (congrArg Fin.val htwo) Nat.zero_ne_one

end BTB

end RiscvSoc
