import RiscvSoc.Boom.LSU
import RiscvSoc.Lib.ByteMemory

/-!
# Forwarded data is memory data

A load that the store queue answers gets the register contents of one store, through
`LoadDataGenerator`. Behind the queue there is a byte memory, on which the stores are to be
performed one after the other.

An access touches the bytes of `GenByteMask`: the low bits of the address that its size does not
allow are ignored, as the cache ignores them. For an aligned address these are the bytes from the
address on (`MemTyp.offset_of_aligned`).

## Program order

The stores a load waits for are older than the load. The entry after the last of them is
`laq_yng_st_idx`, so the oldest comes first when the queue is read from that entry around
(`inOrder`). `ForwardingAgeLogic` finds the last match in that order
(`forwardingAgeLogic_spec`).

## What is not known yet

A store whose data has not arrived may be among them; it does not matter which data it will have,
unless the load takes it. A store whose address has not arrived is passed over: the load is
speculative, and `failed_loads` catches it when the address comes. So the memory is the one with
all older stores whose address is known (`forward_eq_memory`), not with all older stores
(`not_forward_eq_memory`).
-/

namespace RiscvSoc

variable {c : BOOMConf}

/-! ### Accesses -/

/-- The bytes a memory instruction touches. -/
def access (c : BOOMConf) (addr : Word) (typ : MemTyp) : Access (BitVec (c.paddrBits - 3 + 1)) :=
  ⟨dwordAddr c addr, typ.offset addr, typ.size⟩

theorem extractLsb_low (data : Word) (n : ℕ) :
    data.extractLsb n 0 = data.setWidth (n - 0 + 1) := by
  refine BitVec.eq_of_getLsbD_eq fun i hi => ?_
  rw [BitVec.getLsbD_extractLsb, BitVec.getLsbD_setWidth, Nat.zero_add]

theorem loadDataGenerator_eq (data : Word) (typ : MemTyp) :
    loadDataGenerator data typ = typ.extend (data.setWidth (8 * typ.size)) := by
  cases typ with
  | d => exact (BitVec.signExtend_eq _).symm
  | x => exact (BitVec.setWidth_eq _).symm
  | b | h | w => exact congrArg (BitVec.signExtend 64) (extractLsb_low data _)
  | bu | hu | wu => exact congrArg (BitVec.setWidth 64) (extractLsb_low data _)

theorem genByteMask_eq (addr : Word) (typ : MemTyp) :
    genByteMask addr typ = maskAt (addr.toNat % 8) typ := by
  have h0 : (addr.extractLsb 2 0).toNat = addr.toNat % 8 := by
    simp [BitVec.extractLsb, Nat.shiftRight_zero]
  have h1 : (addr.extractLsb 2 1).toNat = addr.toNat % 8 / 2 := by
    simp [BitVec.extractLsb, Nat.shiftRight_eq_div_pow]
    omega
  have h2 : addr.getLsbD 2 = decide (4 ≤ addr.toNat % 8) := by
    rw [BitVec.getLsbD, Nat.testBit_eq_decide_div_mod_eq]
    exact decide_eq_decide.mpr (by omega)
  cases typ <;> simp only [genByteMask, maskAt, h0, h1, h2, decide_eq_true_eq]

theorem getLsbD_genByteMask (addr : Word) (typ : MemTyp) {b : ℕ} (hb : b < 8) :
    (genByteMask addr typ).getLsbD b = decide ((access c addr typ).Has b) := by
  rw [genByteMask_eq]
  exact getLsbD_maskAt _ (Nat.mod_lt _ (by decide)) b hb typ

/-- Two masks meet when the accesses share a byte of their double words. -/
theorem genByteMask_and_ne_zero_iff {a b : Word} {t u : MemTyp} :
    genByteMask a t &&& genByteMask b u ≠ 0#8 ↔
      ∃ x, (access c a t).Has x ∧ (access c b u).Has x := by
  constructor
  · intro h
    by_contra hno
    push Not at hno
    refine h (BitVec.eq_of_getLsbD_eq fun x hx => ?_)
    rw [BitVec.getLsbD_and, getLsbD_genByteMask (c := c) a t hx,
      getLsbD_genByteMask (c := c) b u hx]
    rw [BitVec.getLsbD_zero, Bool.and_eq_false_iff, decide_eq_false_iff_not,
      decide_eq_false_iff_not]
    exact not_and_or.mp fun hboth => hno x hboth.1 hboth.2
  · rintro ⟨x, hxa, hxb⟩ h
    have hx : x < 8 := hxa.2.trans_le (t.offset_add_size_le a)
    have hbit := congrArg (BitVec.getLsbD · x) h
    simp only [BitVec.getLsbD_and, getLsbD_genByteMask (c := c) _ _ hx, hxa, hxb] at hbit
    simp at hbit

/-! ### Program order -/

section order

variable {n : ℕ}

/-- How far entry `k` is behind entry `y`, around the queue. -/
def behind (y k : Fin n) : ℕ := (k - y : Fin n).val

theorem behind_of_le {y k : Fin n} (h : y ≤ k) : behind y k = k - y := Fin.sub_val_of_le h

theorem behind_of_lt {y k : Fin n} (h : k < y) : behind y k = n + k - y := by
  rw [behind, Fin.sub_def]
  have hy := y.isLt
  have hlt : (k : ℕ) < y := h
  change (n - y + k) % n = _
  rw [Nat.mod_eq_of_lt (by omega)]
  omega

variable [NeZero n]

/-- The entries from `y` on, around the queue: oldest first, where `y` is the next to be taken. -/
def inOrder (y : Fin n) : List (Fin n) := (List.finRange n).map (y + ·)

theorem mem_inOrder (y k : Fin n) : k ∈ inOrder y :=
  List.mem_map.mpr ⟨k - y, List.mem_finRange _, add_sub_cancel y k⟩

theorem pairwise_inOrder (y : Fin n) : (inOrder y).Pairwise fun j k => behind y j < behind y k := by
  rw [inOrder, List.pairwise_map]
  refine (List.pairwise_lt_finRange n).imp fun {j k} h => ?_
  rw [behind, behind, add_sub_cancel_left, add_sub_cancel_left]
  exact h

end order

namespace LSU

/-- **The age logic finds the last match.** Everything behind it does not match. -/
theorem forwardingAgeLogic_spec {addrMatches : StMask c} {y k : Fin c.lsuEntries}
    (h : forwardingAgeLogic addrMatches y = some k) :
    addrMatches k = true ∧ ∀ j, behind y k < behind y j → addrMatches j = false := by
  rw [forwardingAgeLogic] at h
  cases hlow : lastEncoder fun k => addrMatches k && decide (k < y) with
  | some k' =>
    obtain rfl : k' = k := by simpa [hlow] using h
    obtain ⟨hk, hlast⟩ := lastEncoder_eq_some.mp hlow
    rw [Bool.and_eq_true, decide_eq_true_iff] at hk
    refine ⟨hk.1, fun j hj => ?_⟩
    rw [behind_of_lt hk.2] at hj
    have hjy : j < y := by
      by_contra hno
      rw [behind_of_le (not_lt.mp hno)] at hj
      have := j.isLt
      have := y.isLt
      omega
    rw [behind_of_lt hjy] at hj
    have hkj : k' < j := by
      rw [Fin.lt_def]
      have := y.isLt
      omega
    have hno := hlast j hkj
    rwa [decide_eq_true hjy, Bool.and_true] at hno
  | none =>
    rw [hlow] at h
    change lastEncoder addrMatches = some k at h
    obtain ⟨hk, hlast⟩ := lastEncoder_eq_some.mp h
    have hbelow : ∀ j, j < y → addrMatches j = false := by
      intro j hj
      have hno := lastEncoder_eq_none.mp hlow j
      rwa [decide_eq_true hj, Bool.and_true] at hno
    refine ⟨hk, fun j hj => ?_⟩
    by_cases hjy : j < y
    · exact hbelow j hjy
    have hky : ¬k < y := fun hlt => by
      rw [hbelow k hlt] at hk
      cases hk
    rw [behind_of_le (not_lt.mp hky), behind_of_le (not_lt.mp hjy)] at hj
    refine hlast j ?_
    rw [Fin.lt_def]
    omega

/-! ### What the queue says -/

variable {s : LSU c} {i : LSUInput c}

/-- What is known of the data of store `k` a cycle later, when they are read. -/
def storeData (s : LSU c) (i : LSUInput c) (k : Fin c.lsuEntries) : Option Word :=
  match arrivesAt i.stdResp k with
  | some r => some r.data
  | none => if (s.stq k).sdqVal then some (s.stq k).sdqData else none

/-- The stores the load depends on, oldest first: those with `known`. -/
def olderStores (s : LSU c) (i : LSUInput c) (known : Fin c.lsuEntries → Bool) :
    List (Fin c.lsuEntries) :=
  (inOrder (s.laq (s.ldIssIdx i)).yngStIdx).filter fun k => s.stDep i k && known k

theorem mem_olderStores {known : Fin c.lsuEntries → Bool} {k : Fin c.lsuEntries} :
    k ∈ s.olderStores i known ↔ s.stDep i k = true ∧ known k = true := by
  rw [olderStores, List.mem_filter, Bool.and_eq_true, and_iff_right (mem_inOrder _ k)]

/-- Store `k` as a write, with its address and its data. -/
def storeWrite (s : LSU c) (addr data : Fin c.lsuEntries → Word) (k : Fin c.lsuEntries) :
    Write (BitVec (c.paddrBits - 3 + 1)) :=
  { access c (addr k) (s.stq k).uop.memTyp with data := data k }

/-- A store that is entered has no data yet; the data register is left alone. -/
theorem Enq.store_sdq (e : Enq c) (uop : MicroOp c) (k : Fin c.lsuEntries) :
    ((e.store uop).stq k).sdqData = (e.stq k).sdqData ∧
      (((e.store uop).stq k).sdqVal = true → (e.stq k).sdqVal = true) := by
  by_cases hk : k = e.stEnqIdx
  · subst hk
    simp [Enq.store]
  · simp [Enq.store, hk]

theorem Enq.slot_sdq (e : Enq c) (d : DecSlot c) (k : Fin c.lsuEntries) :
    ((e.slot d).stq k).sdqData = (e.stq k).sdqData ∧
      (((e.slot d).stq k).sdqVal = true → (e.stq k).sdqVal = true) := by
  have hload : (if d.ldVal then e.load d.uop else e).stq = e.stq := by
    split <;> rfl
  rw [Enq.slot, ← hload]
  split
  · exact Enq.store_sdq _ d.uop k
  · exact ⟨rfl, id⟩

theorem enq_sdq (s : LSU c) (i : LSUInput c) (k : Fin c.lsuEntries) :
    ((s.enq i).stq k).sdqData = (s.stq k).sdqData ∧
      (((s.enq i).stq k).sdqVal = true → (s.stq k).sdqVal = true) := by
  refine List.foldlRecOn (motive := fun e : Enq c => (e.stq k).sdqData = (s.stq k).sdqData ∧
    ((e.stq k).sdqVal = true → (s.stq k).sdqVal = true)) _ _ ⟨rfl, id⟩ fun e he d _ => ?_
  have hslot := e.slot_sdq d k
  exact ⟨hslot.1.trans he.1, fun h => he.2 (hslot.2 h)⟩

theorem storeData_of_sdqVal {k : Fin c.lsuEntries} (h : ((s.next i).stq k).sdqVal = true) :
    s.storeData i k = some ((s.next i).stq k).sdqData := by
  obtain ⟨hdata, hval⟩ := enq_sdq s i k
  change (s.nextStq i k).sdqVal = true at h
  change _ = some (s.nextStq i k).sdqData
  simp only [nextStq] at h ⊢
  rw [storeData]
  cases harr : arrivesAt i.stdResp k with
  | some r => rfl
  | none =>
    simp only [harr, Option.isSome_none, Bool.false_eq_true, if_false] at h
    have hsdq : ((s.enq i).stq k).sdqVal = true := by
      by_contra hno
      simp only [Bool.eq_false_of_not_eq_true hno, ite_self] at h
      cases h
    simp only [hval hsdq, if_true, hdata]

variable {k : Fin c.lsuEntries}

/-- A store that may be forwarded to the load, or shares a byte with it, has its size. -/
theorem memTyp_eq (hm : s.dwordAddrMatches i k = true) (ho : s.bytesOverlap i k = true)
    (hsleep : s.forceLdToSleep i = false) : (s.stq k).uop.memTyp = (s.lUop i).memTyp := by
  by_contra hne
  have hforce : s.forceLdToSleep i = true :=
    orR_eq_true.mpr ⟨k, by simp [hm, ho, Ne.symm hne]⟩
  rw [hsleep] at hforce
  cases hforce

theorem bytesOverlap_iff : s.bytesOverlap i k = true ↔
    ∃ x, (access c (s.lAddr i) (s.lUop i).memTyp).Has x ∧
      (access c (s.stq k).saqAddr (s.stq k).uop.memTyp).Has x := by
  rw [bytesOverlap, decide_eq_true_iff, readMask, writeMask]
  exact genByteMask_and_ne_zero_iff

theorem dwordAddrMatches_iff : s.dwordAddrMatches i k = true ↔ s.stDep i k = true ∧
    (s.stq k).saqVal = true ∧ dwordAddr c (s.stq k).saqAddr = dwordAddr c (s.lAddr i) := by
  rw [dwordAddrMatches, Bool.and_eq_true, Bool.and_eq_true, decide_eq_true_iff, and_assoc]

/-- A store that shares a byte with the load touches the same bytes, if the load may go ahead. -/
theorem access_eq_of_overlap (hm : s.dwordAddrMatches i k = true)
    (ho : s.bytesOverlap i k = true) (hsleep : s.forceLdToSleep i = false) :
    access c (s.stq k).saqAddr (s.stq k).uop.memTyp = access c (s.lAddr i) (s.lUop i).memTyp := by
  obtain ⟨x, hxl, hxs⟩ := bytesOverlap_iff.mp ho
  have hline := (dwordAddrMatches_iff.mp hm).2.2
  have htyp := memTyp_eq hm ho hsleep
  rw [htyp] at hxs ⊢
  simp only [access, hline, MemTyp.offset_eq hxs hxl]

theorem genByteMask_congr {a b : Word} {t u : MemTyp} (h : access c a t = access c b u) :
    genByteMask a t = genByteMask b u := by
  refine BitVec.eq_of_getLsbD_eq fun x hx => ?_
  rw [getLsbD_genByteMask (c := c) a t hx, getLsbD_genByteMask (c := c) b u hx, h]

theorem forwardingMatches_of_overlap (hm : s.dwordAddrMatches i k = true)
    (ho : s.bytesOverlap i k = true) (hsleep : s.forceLdToSleep i = false) :
    s.forwardingMatches i k = true := by
  have hmask : s.readMask i = s.writeMask k :=
    (genByteMask_congr (access_eq_of_overlap hm ho hsleep)).symm
  have hfence : (s.stq k).uop.isFence = false := by
    by_contra hf
    have hdep := (dwordAddrMatches_iff.mp hm).1
    have hforce : s.forceLdToSleep i = true :=
      orR_eq_true.mpr ⟨k, by simp [hdep, Bool.eq_true_of_not_eq_false hf]⟩
    rw [hsleep] at hforce
    cases hforce
  simp [forwardingMatches, hmask, hfence, hm]

theorem overlap_of_forwardingMatches (h : s.forwardingMatches i k = true) :
    s.dwordAddrMatches i k = true ∧ s.bytesOverlap i k = true := by
  simp only [forwardingMatches, Bool.and_eq_true, decide_eq_true_iff] at h
  obtain ⟨⟨hmask, -⟩, hm⟩ := h
  refine ⟨hm, bytesOverlap_iff.mpr ?_⟩
  have hself : genByteMask (s.lAddr i) (s.lUop i).memTyp &&&
      genByteMask (s.lAddr i) (s.lUop i).memTyp ≠ 0#8 := by
    refine (genByteMask_and_ne_zero_iff (c := c)).mpr
      ⟨(s.lUop i).memTyp.offset (s.lAddr i), ⟨le_rfl, ?_⟩, le_rfl, ?_⟩
    all_goals exact Nat.lt_add_of_pos_right (MemTyp.size_pos _)
  have hmasks : genByteMask (s.lAddr i) (s.lUop i).memTyp
      = genByteMask (s.stq k).saqAddr (s.stq k).uop.memTyp := hmask
  refine genByteMask_and_ne_zero_iff.mp ?_
  rw [← hmasks]
  exact hself

/-! ### The answer -/

/-- What the answer two cycles after the decision depends on. -/
theorem of_forwardVal {i₁ i₂ : LSUInput c} (h : ((s.next i).next i₁).forwardVal i₂ = true) :
    ∃ k, s.forwarding i = some k ∧ s.forceLdToSleep i = false ∧
      ((s.next i).stq k).sdqVal = true ∧
      ((s.next i).next i₁).rForwardData
        = loadDataGenerator ((s.next i).stq k).sdqData (s.lUop i).memTyp := by
  simp only [forwardVal, Bool.and_eq_true] at h
  obtain ⟨⟨hwb, -⟩, hsdq⟩ := h
  have hforwards : s.forwards i = true := by
    change (if isKilledByBranch i.brinfo s.rMemUop.brMask then false else s.forwards i) =
        true at hwb
    split at hwb
    · cases hwb
    · exact hwb
  simp only [forwards, Bool.and_eq_true, Bool.not_eq_true'] at hforwards
  obtain ⟨⟨⟨-, hsome⟩, hsleep⟩, -⟩ := hforwards
  obtain ⟨k, hk⟩ := Option.isSome_iff_exists.mp hsome
  have hidx : (s.next i).rForwardStdIdx = k := by
    change (s.forwarding i).getD 0 = k
    rw [hk, Option.getD_some]
  change ((s.next i).stq (s.next i).rForwardStdIdx).sdqVal = true at hsdq
  rw [hidx] at hsdq
  refine ⟨k, hk, hsleep, hsdq, ?_⟩
  change loadDataGenerator ((s.next i).stq (s.next i).rForwardStdIdx).sdqData _ = _
  rw [hidx]
  rfl

/-- **Forwarded data is memory data.** Whatever is in the queues, an answer that the unit gives two
cycles later to the load of this cycle is what the load would read from a byte memory, once the
older stores with a known address have been performed on it in program order. Data that are not
known yet may be anything. -/
theorem forward_eq_memory (s : LSU c) (i₀ i₁ i₂ : LSUInput c)
    (h : ((s.next i₀).next i₁).forwardVal i₂ = true)
    (m : ByteMem (BitVec (c.paddrBits - 3 + 1))) (data : Fin c.lsuEntries → Word)
    (hdata : ∀ k d, s.storeData i₀ k = some d → data k = d) :
    ((s.next i₀).next i₁).rForwardData = (s.lUop i₀).memTyp.extend
      ((m.performAll ((s.olderStores i₀ fun k => (s.stq k).saqVal).map
        (s.storeWrite (fun k => (s.stq k).saqAddr) data))).read
          (access c (s.lAddr i₀) (s.lUop i₀).memTyp)) := by
  obtain ⟨k, hk, hsleep, hsdq, hval⟩ := of_forwardVal h
  obtain ⟨hmatch, hlast⟩ := forwardingAgeLogic_spec hk
  obtain ⟨hm, ho⟩ := overlap_of_forwardingMatches hmatch
  obtain ⟨hdep, hsaq, -⟩ := dwordAddrMatches_iff.mp hm
  have hmem : k ∈ s.olderStores i₀ fun k => (s.stq k).saqVal := mem_olderStores.mpr ⟨hdep, hsaq⟩
  obtain ⟨before, after, hsplit⟩ := List.append_of_mem hmem
  have hyounger : ∀ j ∈ after, s.stDep i₀ j = true ∧ (s.stq j).saqVal = true ∧
      s.forwardingMatches i₀ j = false := by
    intro j hj
    have hjmem : j ∈ s.olderStores i₀ fun k => (s.stq k).saqVal := by
      rw [hsplit]
      exact List.mem_append_right _ (List.mem_cons_of_mem _ hj)
    have hpair := (pairwise_inOrder (s.laq (s.ldIssIdx i₀)).yngStIdx).filter
      (fun k => s.stDep i₀ k && (s.stq k).saqVal)
    rw [olderStores] at hsplit
    rw [hsplit, List.pairwise_append, List.pairwise_cons] at hpair
    obtain ⟨hdepj, hsaqj⟩ := mem_olderStores.mp hjmem
    exact ⟨hdepj, hsaqj, hlast j (hpair.2.1.1 j hj)⟩
  have hnot : ∀ u ∈ after.map (s.storeWrite (fun k => (s.stq k).saqAddr) data),
      ¬u.Overlaps (access c (s.lAddr i₀) (s.lUop i₀).memTyp) := by
    rintro _ hu ⟨hline, x, hxs, hxl⟩
    obtain ⟨j, hj, rfl⟩ := List.mem_map.mp hu
    obtain ⟨hdepj, hsaqj, hnomatch⟩ := hyounger j hj
    have hmj := dwordAddrMatches_iff.mpr ⟨hdepj, hsaqj, hline⟩
    have hoj : s.bytesOverlap i₀ j = true := bytesOverlap_iff.mpr ⟨x, hxl, hxs⟩
    rw [forwardingMatches_of_overlap hmj hoj hsleep] at hnomatch
    cases hnomatch
  have hself : (s.storeWrite (fun k => (s.stq k).saqAddr) data k).toAccess
      = access c (s.lAddr i₀) (s.lUop i₀).memTyp := access_eq_of_overlap hm ho hsleep
  rw [hsplit, List.map_append, List.map_cons, ByteMem.read_performAll hself hnot, hval,
    loadDataGenerator_eq, ← hdata k _ (storeData_of_sdqVal hsdq)]
  rfl

/-! ### A store without an address -/

/-- Two stores and a load behind them; the first store has its address, `64`, and its data, `5`. -/
def twoStores : List (LSUInput .chip) :=
  let store : MicroOp .chip := ⟨.sta, false, .d, fun _ => false, 0, 0, 0, 0⟩
  let load : MicroOp .chip := ⟨.ld, false, .d, fun _ => false, 0, 2, 7, 2⟩
  [{ LSUInput.quiet with dec := [⟨false, true, store⟩, ⟨false, true, { store with stqIdx := 1 }⟩] },
    { LSUInput.quiet with dec := [⟨true, false, load⟩], exeReq := some ⟨store, 64⟩ },
    { LSUInput.quiet with exeReq := some ⟨{ store with uopc := .std }, 5⟩ }]

/-- The unit after them. -/
def afterTwoStores : LSU .chip := twoStores.foldl next (reset .chip)

theorem reachable_afterTwoStores : (machine .chip).Reachable afterTwoStores :=
  .step (.step (.step (.init (isReset_reset .chip)) rfl) rfl) rfl

/-- The load's address arrives, `64` too. -/
def loadAt64 : LSUInput .chip :=
  { LSUInput.quiet with exeReq := some ⟨⟨.ld, false, .d, fun _ => false, 0, 2, 7, 2⟩, 64⟩ }

theorem forwardVal_twoStores :
    ((afterTwoStores.next loadAt64).next .quiet).forwardVal .quiet = true := by decide +kernel

theorem forward_eq_memory_twoStores :
    ((afterTwoStores.next loadAt64).next .quiet).rForwardData
      = (afterTwoStores.lUop loadAt64).memTyp.extend
        ((ByteMem.performAll (fun _ _ => 0)
          ((afterTwoStores.olderStores loadAt64 fun k => (afterTwoStores.stq k).saqVal).map
            (afterTwoStores.storeWrite (fun k => (afterTwoStores.stq k).saqAddr)
              fun k => (afterTwoStores.storeData loadAt64 k).getD 0))).read
          (access .chip (afterTwoStores.lAddr loadAt64) (afterTwoStores.lUop loadAt64).memTyp)) :=
  forward_eq_memory afterTwoStores loadAt64 .quiet .quiet forwardVal_twoStores _ _
    fun k d hd => by rw [hd, Option.getD_some]

/-- With all older stores it is not so: the second store goes to `64` as well and writes `9`, and
the load is answered with `5` before that is known. -/
theorem not_forward_eq_memory :
    ¬∀ (s : LSU .chip), (machine .chip).Reachable s → ∀ i₀ i₁ i₂ : LSUInput .chip,
      ((s.next i₀).next i₁).forwardVal i₂ = true →
      ∀ (m : ByteMem (BitVec (BOOMConf.chip.paddrBits - 3 + 1)))
        (addr data : Fin BOOMConf.chip.lsuEntries → Word),
      (∀ k, (s.stq k).saqVal = true → addr k = (s.stq k).saqAddr) →
      (∀ k d, s.storeData i₀ k = some d → data k = d) →
      ((s.next i₀).next i₁).rForwardData = (s.lUop i₀).memTyp.extend
        ((m.performAll ((s.olderStores i₀ fun _ => true).map (s.storeWrite addr data))).read
          (access .chip (s.lAddr i₀) (s.lUop i₀).memTyp)) := by
  intro h
  have heq := h afterTwoStores reachable_afterTwoStores loadAt64 .quiet .quiet
    forwardVal_twoStores (fun _ _ => 0) (fun _ => 64)
    (fun k => (afterTwoStores.storeData loadAt64 k).getD 9) (by decide +kernel)
    (fun k d hd => by rw [hd, Option.getD_some])
  exact absurd heq (by decide +kernel)

end LSU

end RiscvSoc
