import RiscvSoc.Hwacha.VMUMem
import Mathlib.Data.List.Perm.Basic

/-!
# Each memory request is performed once

The port of the cache and the queues behind it look at different conditions. `MemIF` takes a load
from the address queue only if the counter says that there is a place for its answer, but the
request is shown to the cache without a look at the counter. So the cache accepts a load that stays
in its queue, again and again until there is a place.

As long as that does not happen, everything fits together. A request is accepted exactly when its
entry leaves the address queue, and its data, if it is a store, the queue of the store data. The
tags in use are those of the loads on their way, each with its own metadata, and the counter, the
loads on their way and the loaded data make up the places of the load-data queue.
-/

namespace RiscvSoc

namespace Hwacha

open VMUFn

theorem VMUCmd.kind (c : VMUCmd) :
    isLoad c.raw = true ∧ isStore c.raw = false ∧ isAMO c.raw = false ∧ isPrefetch c.raw = false ∨
    isLoad c.raw = false ∧ isStore c.raw = true ∧ isAMO c.raw = false ∧ isPrefetch c.raw = false ∨
    isLoad c.raw = false ∧ isStore c.raw = false ∧ isAMO c.raw = true ∧ isPrefetch c.raw = false ∨
    isLoad c.raw = false ∧ isStore c.raw = false ∧ isAMO c.raw = false ∧
      isPrefetch c.raw = true := by
  obtain ⟨raw, hknown⟩ := c
  revert raw
  decide

namespace VMUMem

variable {s : VMUMem} {i : VMUMemIn}

variable (s i) in
/-- A request with an answer is shown to the cache, which is ready, and there is no place for the
answer. -/
def Blocked : Prop :=
  s.ifValid i = true ∧ i.dmemReady = true ∧ s.stall = true ∧
    (isLoad (s.cmd i) || isAMO (s.cmd i) && s.vsdqValid) = true

variable (s i) in
/-- The cache accepts a request exactly when it is taken, and takes the data of a store with it. -/
def Coincide : Prop :=
  s.dmemFire i = s.ifFire i ∧ s.vsdqFire i = (s.dmemFire i && (s.arbBits i).cmd.stores)

/-- **The conditions on a request coincide** exactly if it is not blocked. -/
theorem coincide_iff : s.Coincide i ↔ ¬s.Blocked i := by
  rw [Coincide, Blocked, dmemFire, ifFire, vsdqFire, dmemValid, ifReady, vsdqReady, VMUCmd.stores,
    cmd]
  rcases (s.arbBits i).cmd.kind with
    ⟨hl, hs, ha, hp⟩ | ⟨hl, hs, ha, hp⟩ | ⟨hl, hs, ha, hp⟩ | ⟨hl, hs, ha, hp⟩ <;>
    rw [hl, hs, ha, hp] <;> cases s.ifValid i <;> cases i.dmemReady <;> cases s.stall <;>
      cases s.vsdqValid <;> decide

/-- The address queue gives up an entry when `MemIF` takes one of its side. -/
theorem deqFire_iff : s.deqFire i = true ↔ s.ifFire i = true ∧ s.choice i = 0 := by
  have hfires : s.deqFire i = RRArbiter.fires s.lastGrant (s.arbValid i) (s.ifReady i) 0 := by
    rw [deqFire, vpaqReady, memifReady, RRArbiter.fires, arbValid, if_pos rfl]
    cases s.vmdbReady <;> cases s.vpaqValid i <;> simp
  rw [hfires, RRArbiter.fires_eq_true, ifFire, ifValid, choice]
  cases RRArbiter.chosen s.lastGrant (s.arbValid i) with
  | none => simp
  | some k => simp

theorem infoFire_eq : s.infoFire i = (s.deqFire i && s.head.cmd.loads) := by
  rw [infoFire, deqFire, vpaqReady, vmdbReady]
  cases s.head.cmd.loads <;> cases s.vpaqValid i <;> cases s.memifReady i <;> cases s.infoReady <;>
    rfl

theorem arbBits_of_deqFire (h : s.deqFire i = true) : (s.arbBits i).cmd = s.head.cmd := by
  rw [arbBits, if_pos (deqFire_iff.mp h).2]

/-- A load is taken only if there is a place for its answer. -/
theorem stall_of_infoFire (h : s.infoFire i = true) : s.stall = false := by
  rw [infoFire_eq, Bool.and_eq_true] at h
  obtain ⟨hdeq, hloads⟩ := h
  have hready := (Bool.and_eq_true_iff.mp (deqFire_iff.mp hdeq).1).2
  rw [ifReady, cmd, arbBits_of_deqFire hdeq] at hready
  rw [VMUCmd.loads] at hloads
  by_contra hstall
  rw [Bool.eq_true_of_not_eq_false hstall] at hready
  rcases s.head.cmd.kind with
    ⟨hl, hs, ha, hp⟩ | ⟨hl, hs, ha, hp⟩ | ⟨hl, hs, ha, hp⟩ | ⟨hl, hs, ha, hp⟩ <;>
    rw [hl, hs, ha, hp] at hready <;> rw [hl, ha] at hloads <;> simp at hready hloads

theorem free_of_infoFire (h : s.infoFire i = true) : s.busy.getLsbD s.tag = false := by
  obtain ⟨t, ht⟩ := Option.isSome_iff_exists.mp (Bool.and_eq_true_iff.mp h).2
  have hfree := priorityEncoder_some ht
  rw [tag, ht, Option.getD_some]
  exact (Bool.not_eq_true' _).mp hfree

/-! ### What leaves the queues -/

theorem vpaq_left : s.vpaq.left false (s.vpaqIn i) = if s.deqFire i then [s.head] else [] := by
  rw [Queue.left, vpaqIn, deqFire, vpaqValid]
  cases hempty : s.vpaq.ptrs.empty with
  | true =>
    rw [Queue.deq_of_empty hempty]
    simp
  | false =>
    rw [Queue.deq_of_not_empty hempty]
    cases s.vpaqReady i <;> cases s.throttled i <;> rfl

theorem vsdq_left : s.vsdq.left false (s.vsdqIn i) = if s.vsdqFire i then [s.vsdqBits] else [] := by
  rw [Queue.left, vsdqIn, vsdqFire, vsdqValid]
  cases hempty : s.vsdq.ptrs.empty with
  | true =>
    rw [Queue.deq_of_empty hempty]
    simp
  | false =>
    rw [Queue.deq_of_not_empty hempty]
    cases s.vsdqReady i <;> rfl

variable {resp : Option (Fin 16 × BitVec 64)}

theorem length_vldq_left :
    (s.vldq.left false (s.vldqIn i resp)).length = if s.laneFire i then 1 else 0 := by
  rw [Queue.left, vldqIn, laneFire]
  cases hempty : s.vldq.ptrs.empty with
  | true =>
    rw [Queue.deq_of_empty hempty]
    simp
  | false =>
    rw [Queue.deq_of_not_empty hempty]
    cases i.laneReady <;> rfl

theorem vldq_entered (hroom : s.vldq.held.length < 16) :
    s.vldq.entered false (s.vldqIn i resp) =
      (resp.map fun r => (⟨s.data r.1, r.2⟩ : VLDQEntry)).toList := by
  rw [Queue.entered, Queue.enqReady_eq, decide_eq_true hroom, Bool.true_or, if_pos rfl]
  rfl

/-! ### Tags and places -/

theorem getLsbD_nextBusy (t : Fin 16) :
    (s.nextBusy i resp).getLsbD t = true ↔
      s.busy.getLsbD t = true ∧ ¬(s.vldqEnqFire i resp = true ∧ resp.map (·.1) = some t) ∨
        s.infoFire i = true ∧ s.tag = t := by
  have htwo : ∀ u : Fin 16, (BitVec.twoPow 16 u).getLsbD t = true ↔ u = t := by
    intro u
    rw [BitVec.getLsbD_twoPow, decide_eq_true u.isLt, Bool.true_and, decide_eq_true_eq, Fin.ext_iff]
  have hzero : (0 : BitVec 16).getLsbD t = true ↔ False := by
    show (0#16).getLsbD t = true ↔ False
    rw [BitVec.getLsbD_zero, Bool.false_eq_true]
  have hwr : (s.busyMaskWr i).getLsbD t = true ↔ s.infoFire i = true ∧ s.tag = t := by
    rw [busyMaskWr]
    split
    · rename_i hfire
      rw [htwo, and_iff_right hfire]
    · rename_i hfire
      rw [hzero, iff_false_intro hfire, false_and]
  have hrd : (s.busyMaskRd i resp).getLsbD t = true ↔
      s.vldqEnqFire i resp = true ∧ resp.map (·.1) = some t := by
    cases resp with
    | none => exact hzero.trans ⟨False.elim, fun h => nomatch h.2⟩
    | some r =>
      rw [busyMaskRd, Option.map_some, Option.some.injEq]
      split
      · rename_i hfire
        rw [htwo, and_iff_right hfire]
      · rename_i hfire
        rw [hzero, iff_false_intro hfire, false_and]
  rw [nextBusy, BitVec.getLsbD_or, Bool.or_eq_true, BitVec.getLsbD_and, Bool.and_eq_true, hwr,
    BitVec.getLsbD_not, decide_eq_true t.isLt, Bool.true_and, Bool.not_eq_true',
    Bool.eq_false_iff, Ne, hrd]

end VMUMem

namespace VMUMemSys

variable {s : VMUMemSys} {i : VMUMemIn} {g : VMUMemLog}

theorem accepts_eq (h : s.unit.Coincide i) : s.accepts i = s.unit.deqFire i := by
  rw [accepts, h.1, Bool.eq_iff_iff, VMUMem.deqFire_iff, Bool.and_eq_true, decide_eq_true_eq]

/-- The cache has no answer in this cycle, or it answers one of its requests. -/
theorem answer_cases (s : VMUMemSys) (i : VMUMemIn) :
    s.answer i = none ∧ s.remaining i = s.cache ∨
      ∃ p x l r, s.answer i = some (p, x) ∧ s.cache = l ++ p :: r ∧ s.remaining i = l ++ r := by
  rw [answer, remaining]
  cases i.resp with
  | none => exact .inl ⟨rfl, rfl⟩
  | some r =>
    cases hget : s.cache[r.1]? with
    | none =>
      refine .inl ⟨?_, List.eraseIdx_of_length_le (List.getElem?_eq_none_iff.mp hget)⟩
      rw [Option.bind_some, hget, Option.map_none]
    | some p =>
      obtain ⟨hlt, hp⟩ := List.getElem?_eq_some_iff.mp hget
      refine .inr ⟨p, r.2, s.cache.take r.1, s.cache.drop (r.1 + 1), ?_, ?_,
        List.eraseIdx_eq_take_drop_succ _ _⟩
      · rw [Option.bind_some, hget, Option.map_some]
      · rw [← hp, ← List.drop_eq_getElem_cons hlt, List.take_append_drop]

/-- What the unit knows of the requests on their way. -/
structure TagInv (s : VMUMemSys) : Prop where
  nodup : (s.cache.map (·.tag)).Nodup
  busy : ∀ t : Fin 16, s.unit.busy.getLsbD t = true ↔ t ∈ s.cache.map (·.tag)
  info : ∀ p ∈ s.cache, s.unit.data p.tag = p.entry.info
  places : s.unit.count.toNat + s.cache.length + s.unit.vldq.held.length = 16

/-- **Every answer finds a place.** -/
theorem TagInv.room (h : TagInv s) (hne : s.answer i ≠ none) : s.unit.vldq.held.length < 16 := by
  rcases answer_cases s i with ⟨hnone, -⟩ | ⟨p, x, l, r, -, hcache, -⟩
  · exact absurd hnone hne
  · have hlen := h.places
    rw [hcache, List.length_append, List.length_cons] at hlen
    omega

theorem TagInv.entered (h : TagInv s) :
    s.unit.vldq.entered false (s.unit.vldqIn i (s.resp i)) =
      ((s.answer i).map fun r => (⟨r.1.entry.info, r.2⟩ : VLDQEntry)).toList := by
  rcases answer_cases s i with ⟨hnone, -⟩ | ⟨p, x, l, r, hans, hcache, -⟩
  · rw [Queue.entered, VMUMem.vldqIn, resp, hnone]
    simp
  · have hp : p ∈ s.cache := hcache ▸ List.mem_append_right _ List.mem_cons_self
    rw [VMUMem.vldq_entered (h.room (by rw [hans]; exact Option.some_ne_none _)), resp, hans]
    simp only [Option.map_some, h.info p hp]

theorem TagInv.fresh (h : TagInv s) (hfire : s.unit.infoFire i = true) :
    s.unit.tag ∉ s.cache.map (·.tag) := by
  rw [← h.busy, VMUMem.free_of_infoFire hfire]
  exact Bool.false_ne_true

theorem mem_remaining {p : Pending} (h : p ∈ s.remaining i) : p ∈ s.cache := by
  rcases answer_cases s i with ⟨-, hrem⟩ | ⟨q, x, l, r, -, hcache, hrem⟩
  · rwa [hrem] at h
  · rw [hrem] at h
    rw [hcache]
    exact List.mem_append.mpr ((List.mem_append.mp h).imp_right (List.mem_cons_of_mem q))

theorem nextCache_eq (h : s.unit.Coincide i) : s.nextCache i =
    s.remaining i ++ if s.unit.infoFire i then [⟨s.unit.head, s.unit.tag⟩] else [] := by
  rw [nextCache, accepts_eq h, VMUMem.infoFire_eq]

theorem TagInv.step_nodup (h : TagInv s) (hok : s.unit.Coincide i) :
    ((s.nextCache i).map (·.tag)).Nodup := by
  have hrem : ((s.remaining i).map (·.tag)).Nodup := by
    rcases answer_cases s i with ⟨-, hrem⟩ | ⟨p, x, l, r, -, hcache, hrem⟩
    · rw [hrem]
      exact h.nodup
    · have hsub : (l ++ r).Sublist (l ++ p :: r) :=
        List.Sublist.append_left (List.sublist_cons_self p r) l
      rw [hrem]
      exact (hcache ▸ h.nodup).sublist (hsub.map _)
  rw [nextCache_eq hok, List.map_append]
  cases hfire : s.unit.infoFire i with
  | false => simpa using hrem
  | true =>
    refine List.Nodup.append hrem (List.nodup_singleton _) fun t ht ht' => ?_
    obtain rfl : t = s.unit.tag := List.mem_singleton.mp ht'
    obtain ⟨p, hp, hpt⟩ := List.mem_map.mp ht
    exact h.fresh hfire (List.mem_map.mpr ⟨p, mem_remaining hp, hpt⟩)

theorem TagInv.busy_remaining (h : TagInv s) (t : Fin 16) :
    s.unit.busy.getLsbD t = true ∧
        ¬(s.unit.vldqEnqFire i (s.resp i) = true ∧ (s.resp i).map (·.1) = some t) ↔
      t ∈ (s.remaining i).map (·.tag) := by
  rw [h.busy]
  rcases answer_cases s i with ⟨hnone, hrem⟩ | ⟨p, x, l, r, hans, hcache, hrem⟩
  · rw [resp, hnone, hrem]
    simp
  · have hroom : s.unit.vldqEnqFire i (s.resp i) = true := by
      have hlt := h.room (i := i) (by rw [hans]; exact Option.some_ne_none _)
      rw [VMUMem.vldqEnqFire, Queue.enqReady_eq, decide_eq_true hlt, resp, hans]
      rfl
    have hnodup := h.nodup
    rw [hcache, List.map_append, List.map_cons, List.nodup_middle, List.nodup_cons,
      ← List.map_append] at hnodup
    rw [hroom, resp, hans, hcache, hrem]
    simp only [Option.map_some, Option.some.injEq, true_and, List.map_append, List.map_cons,
      List.mem_append, List.mem_cons]
    constructor
    · rintro ⟨hl | rfl | hr, hne⟩
      · exact .inl hl
      · exact absurd rfl hne
      · exact .inr hr
    · intro hmem
      refine ⟨hmem.imp_right .inr, ?_⟩
      rintro rfl
      exact hnodup.1 (by rw [List.map_append]; exact List.mem_append.mpr hmem)

section

variable (h : TagInv s) (hok : s.unit.Coincide i)
include h hok

theorem TagInv.step_busy (t : Fin 16) :
    (s.unit.nextBusy i (s.resp i)).getLsbD t = true ↔ t ∈ (s.nextCache i).map (·.tag) := by
  rw [VMUMem.getLsbD_nextBusy, h.busy_remaining, nextCache_eq hok, List.map_append,
    List.mem_append]
  refine or_congr_right ?_
  cases s.unit.infoFire i with
  | false => simp
  | true => simp [eq_comm]

theorem TagInv.step_info {p : Pending}
    (hp : p ∈ s.nextCache i) : (s.next i).unit.data p.tag = p.entry.info := by
  show (if s.unit.infoFire i then Function.update s.unit.data s.unit.tag s.unit.head.info
    else s.unit.data) p.tag = _
  rw [nextCache_eq hok, List.mem_append] at hp
  cases hfire : s.unit.infoFire i with
  | false =>
    rw [hfire] at hp
    exact h.info p (mem_remaining (hp.resolve_right List.not_mem_nil))
  | true =>
    rw [hfire] at hp
    rw [if_pos rfl]
    rcases hp with hp | hp
    · have hne : p.tag ≠ s.unit.tag := fun heq =>
        h.fresh hfire (List.mem_map.mpr ⟨p, mem_remaining hp, heq⟩)
      rw [Function.update_of_ne hne]
      exact h.info p (mem_remaining hp)
    · obtain rfl := List.mem_singleton.mp hp
      exact Function.update_self ..

/-- The place of an answer is kept from the request to the lanes. -/
theorem TagInv.step_places :
    (s.next i).unit.count.toNat + (s.nextCache i).length +
      (s.next i).unit.vldq.held.length = 16 := by
  have hlen : (s.remaining i).length + (s.answer i).toList.length = s.cache.length := by
    rcases answer_cases s i with ⟨hnone, hrem⟩ | ⟨p, x, l, r, hans, hcache, hrem⟩
    · rw [hnone, hrem]
      rfl
    · rw [hans, hcache, hrem, List.length_append, List.length_append, List.length_cons]
      rfl
  have hcache : (s.nextCache i).length =
      (s.remaining i).length + if s.unit.infoFire i then 1 else 0 := by
    rw [nextCache_eq hok, List.length_append]
    cases s.unit.infoFire i <;> rfl
  have hstep : s.unit.vldq.held ++ s.unit.vldq.entered false (s.unit.vldqIn i (s.resp i)) =
      s.unit.vldq.left false (s.unit.vldqIn i (s.resp i)) ++ (s.next i).unit.vldq.held := Queue.step
  have hfifo := congrArg List.length hstep
  have hone : ((s.answer i).map fun r => (⟨r.1.entry.info, r.2⟩ : VLDQEntry)).toList.length =
      (s.answer i).toList.length := by
    cases s.answer i <;> rfl
  rw [List.length_append, List.length_append, h.entered, hone, VMUMem.length_vldq_left] at hfifo
  have hplaces := h.places
  have hlane : s.unit.laneFire i = true → 1 ≤ s.unit.vldq.held.length := by
    intro hfire
    obtain ⟨l, hl⟩ := RingPtrs.held_eq_cons s.unit.vldq.ram
      ((Bool.not_eq_true' _).mp (Bool.and_eq_true_iff.mp hfire).2)
    rw [Queue.held, hl]
    exact Nat.le_add_left 1 _
  have hcount : s.unit.infoFire i = true → s.unit.count.toNat ≠ 0 := by
    intro hfire hzero
    have hstall := VMUMem.stall_of_infoFire hfire
    rw [VMUMem.stall, decide_eq_false_iff_not] at hstall
    exact hstall (BitVec.eq_of_toNat_eq hzero)
  have hnext : (s.next i).unit.count = s.unit.nextCount i := rfl
  rw [hnext, VMUMem.nextCount, hcache]
  cases hfire : s.unit.infoFire i with
  | false =>
    rw [hfire] at hcount
    cases hl : s.unit.laneFire i with
    | false =>
      simp [hl] at hfifo ⊢
      omega
    | true =>
      have hpos := hlane hl
      have hadd : (s.unit.count + 1).toNat = s.unit.count.toNat + 1 := by
        rw [BitVec.toNat_add]
        exact Nat.mod_eq_of_lt (by simp; omega)
      rw [hl] at hfifo
      show (s.unit.count + 1).toNat + _ + _ = 16
      simp only [if_true, Bool.false_eq_true, if_false] at hfifo ⊢
      omega
  | true =>
    have hpos := hcount hfire
    cases hl : s.unit.laneFire i with
    | false =>
      have hsub : (s.unit.count - 1).toNat = s.unit.count.toNat - 1 := by
        have hlt := s.unit.count.isLt
        rw [BitVec.toNat_sub]
        simp
        omega
      rw [hl] at hfifo
      show (s.unit.count - 1).toNat + _ + _ = 16
      simp only [if_true, Bool.false_eq_true, if_false] at hfifo ⊢
      omega
    | true =>
      have hheld := hlane hl
      simp [hl] at hfifo ⊢
      omega

theorem TagInv.step : TagInv (s.next i) where
  nodup := h.step_nodup hok
  busy := h.step_busy hok
  info _ hp := h.step_info hok hp
  places := h.step_places hok

end

/-! ### What happens to a request -/

/-- Every entry of the address queue is performed once and in order, with its own data if it is a
store. The loads that were performed were answered or are on their way, under different tags, and
there is a place for the next answer. Every answer came back with the metadata of its request. -/
structure Exact (s : VMUMemSys) (g : VMUMemLog) : Prop where
  performed : g.performed.map (·.entry) = g.consumed
  data : (g.performed.filter (·.entry.cmd.stores)).map (·.data) = g.storeData
  tags : (s.cache.map (·.tag)).Nodup
  room : s.cache ≠ [] → s.unit.vldq.held.length < 16
  answers : (g.answered.map (·.1) ++ s.cache).Perm
    ((g.performed.filter (·.entry.cmd.loads)).map fun p => ⟨p.entry, p.tag⟩)
  kept : g.kept = g.answered.map fun r => ⟨r.1.entry.info, r.2⟩
  returned : g.kept = g.returned ++ s.unit.vldq.held

theorem vsdqFire_eq (hok : s.unit.Coincide i) :
    s.unit.vsdqFire i = (s.accepts i && s.unit.head.cmd.stores) := by
  rw [hok.2, accepts]
  by_cases hchoice : s.unit.choice i = 0
  · rw [VMUMem.arbBits, if_pos hchoice, decide_eq_true hchoice, Bool.and_true]
  · rw [VMUMem.arbBits, if_neg hchoice, decide_eq_false hchoice, (VMUCmd.prefetch_plain _).2,
      Bool.and_false]
    rfl

theorem perm_answer (s : VMUMemSys) (i : VMUMemIn) :
    ((s.answer i).toList.map (·.1) ++ s.remaining i).Perm s.cache := by
  rcases answer_cases s i with ⟨hnone, hrem⟩ | ⟨p, x, l, r, hans, hcache, hrem⟩
  · rw [hnone, hrem]
    exact List.Perm.refl _
  · rw [hans, hcache, hrem]
    show (p :: (l ++ r)).Perm (l ++ p :: r)
    exact List.perm_middle.symm

theorem Exact.step (h : Exact s g) (htag : TagInv s) (hok : s.unit.Coincide i) :
    Exact (s.next i) (s.note i g) := by
  have hnext := htag.step hok
  have hacc := accepts_eq hok
  refine ⟨?_, ?_, hnext.nodup, fun hne => ?_, ?_, ?_, ?_⟩
  · show (g.performed ++ _).map _ = g.consumed ++ _
    rw [List.map_append, h.performed, VMUMem.vpaq_left, hacc]
    cases s.unit.deqFire i <;> rfl
  · show ((g.performed ++ _).filter _).map _ = g.storeData ++ _
    rw [List.filter_append, List.map_append, h.data, VMUMem.vsdq_left, vsdqFire_eq hok]
    cases s.accepts i with
    | false => rfl
    | true => cases hst : s.unit.head.cmd.stores <;> simp [hst]
  · have hlen := List.length_pos_of_ne_nil hne
    have hplaces := hnext.places
    omega
  · show ((g.answered ++ _).map _ ++ s.nextCache i).Perm (((g.performed ++ _).filter _).map _)
    rw [List.map_append, List.filter_append, List.map_append, nextCache, ← List.append_assoc,
      List.append_assoc (List.map _ g.answered)]
    refine List.Perm.append (((perm_answer s i).append_left _).trans h.answers) ?_
    cases s.accepts i with
    | false => exact List.Perm.refl _
    | true => cases hld : s.unit.head.cmd.loads <;> simp [hld]
  · show g.kept ++ _ = (g.answered ++ _).map _
    rw [List.map_append, h.kept, htag.entered]
    cases s.answer i <;> rfl
  · show g.kept ++ _ = g.returned ++ _ ++ _
    rw [h.returned, List.append_assoc, List.append_assoc]
    exact congrArg _ Queue.step

theorem IsReset.tagInv (h : s.IsReset) : TagInv s := by
  obtain ⟨hunit, hcache⟩ := h
  refine ⟨?_, fun t => ?_, fun p hp => ?_, ?_⟩
  · rw [hcache]
    exact List.nodup_nil
  · rw [hunit.busy, hcache]
    simp
  · rw [hcache] at hp
    exact absurd hp List.not_mem_nil
  · rw [hunit.count, hcache, hunit.vldq.held]
    rfl

theorem IsReset.exact (h : s.IsReset) : Exact s .empty := by
  obtain ⟨hunit, hcache⟩ := h
  refine ⟨rfl, rfl, ?_, fun hne => absurd hcache hne, ?_, rfl, ?_⟩
  · rw [hcache]
    exact List.nodup_nil
  · rw [hcache]
    exact List.Perm.refl _
  · rw [hunit.vldq.held]
    rfl

theorem reachable_exact : ∀ x, (machine.restrict fun x i => ¬x.1.unit.Blocked i).Reachable x →
    TagInv x.1 ∧ Exact x.1 x.2 := by
  refine Machine.invariant ?_ ?_
  · rintro ⟨s, g⟩ ⟨hreset, rfl⟩
    exact ⟨IsReset.tagInv hreset, IsReset.exact hreset⟩
  · rintro ⟨s, g⟩ i ⟨s', g'⟩ - ⟨htag, hexact⟩ ⟨hok, hs, hg⟩
    obtain rfl : s' = s.next i := hs
    obtain rfl : g' = s.note i g := hg
    have hcoincide := VMUMem.coincide_iff.mpr hok
    exact ⟨htag.step hcoincide, hexact.step htag hcoincide⟩

end VMUMemSys

/-- **Memory requests.** In every state and for every input, the cache accepts a request exactly
when its entries are taken, unless a load without a place for its answer is shown to a cache that is
ready; then it is not so. And in every run in which that does not happen, every request is performed
once with its own data, and every answer finds a place and comes back once, with the metadata of its
request. -/
theorem vmuMem_once (s : VMUMem) (i : VMUMemIn) : (s.Coincide i ↔ ¬s.Blocked i) ∧
    ∀ x, (VMUMemSys.machine.restrict fun x i => ¬x.1.unit.Blocked i).Reachable x →
      VMUMemSys.Exact x.1 x.2 :=
  ⟨VMUMem.coincide_iff, fun x hx => (VMUMemSys.reachable_exact x hx).2⟩

namespace VMUMemSys

/-! ### A short run -/

/-- A load of one element. -/
def load : VPAQEntry := ⟨⟨M_XRD, by decide⟩, 3, 0x80, ⟨0, 1, 0⟩⟩

/-- The state after a reset. -/
def start : VMUMemSys where
  unit :=
    { vpaq := ⟨⟨0, 0, false⟩, fun _ => load⟩
      reserved := 0
      lastGrant := 0
      vsdq := ⟨⟨0, 0, false⟩, fun _ => 0⟩
      busy := 0
      data := fun _ => load.info
      vldq := ⟨⟨0, 0, false⟩, fun _ => ⟨load.info, 0⟩⟩
      count := 16 }
  cache := []

theorem start_isReset : start.IsReset := ⟨⟨rfl, rfl, rfl, rfl, rfl, rfl⟩, rfl⟩

theorem start_reachable : machine.Reachable (start, .empty) := .init ⟨start_isReset, rfl⟩

/-- A load comes and a place for one is reserved; the cache is ready, and the lanes are not. -/
def ask : VMUMemIn where
  vpaqEnq := some load
  reserve := true
  cnt := 1
  drain := false
  pfValid := false
  pf := ⟨false, 3, 0⟩
  laneData := none
  evacData := none
  dmemReady := true
  resp := none
  laneReady := false

/-- In the same cycle the cache answers its oldest request. -/
def answerFirst : VMUMemIn := { ask with resp := some (0, 0) }

theorem vmuMem_once_load : Exact
    (Machine.cycles next note [ask, ask, answerFirst] (start, .empty)).1
    (Machine.cycles next note [ask, ask, answerFirst] (start, .empty)).2 := by
  have hstart : (machine.restrict fun x i => ¬x.1.unit.Blocked i).Reachable (start, .empty) :=
    .init ⟨start_isReset, rfl⟩
  refine (vmuMem_once start.unit ask).2 _
    (Machine.reachable_restrict_cycles hstart [ask, ask, answerFirst] ?_)
  refine ⟨?_, ?_, ?_, trivial⟩ <;> rintro ⟨-, -, hstall, -⟩ <;> exact absurd hstall (by decide)

/-- Sixteen loads are on their way when the first answer comes. -/
def filled : List VMUMemIn := List.replicate 17 ask ++ [answerFirst]

theorem filled_accepts :
    (Machine.cycles next note filled (start, .empty)).1.unit.dmemFire ask = true ∧
      (Machine.cycles next note filled (start, .empty)).1.unit.ifFire ask = false := by
  decide +kernel

/-- **The cache accepts a load that is not taken.** The first answer is in its queue, so there is a
free tag, but no place: it was kept for this answer. -/
theorem vmuMem_repeats : ¬∀ x, machine.Reachable x → ∀ i, x.1.unit.Coincide i := by
  intro h
  obtain ⟨hdmem, hif⟩ := filled_accepts
  have hsame := (h _ (Machine.reachable_cycles start_reachable filled) ask).1
  rw [hdmem, hif] at hsame
  exact Bool.noConfusion hsame

end VMUMemSys

end Hwacha

end RiscvSoc
