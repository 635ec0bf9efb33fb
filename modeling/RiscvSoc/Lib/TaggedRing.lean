import Mathlib.Data.List.Nodup
import RiscvSoc.Lib.Fifo

/-!
# A circular memory whose places are names

The place an element is put into is handed out as its tag, and later the element is changed through
it, in place. As long as the element is held no other one has that tag, so the memory is a list of
tagged elements that enter at one end, leave at the other and are changed in between.
-/

namespace RiscvSoc

variable {α : Type} {n : ℕ} [NeZero n]

theorem mem_ringSlice_id {p q : Fin n} {k : ℕ} :
    q ∈ ringSlice id p k ↔ ∃ j < k, ringPlace p j = q := by
  induction k with
  | zero => simp [ringSlice]
  | succ k ih =>
    rw [ringSlice_concat, List.mem_append, ih, List.mem_singleton, id]
    constructor
    · rintro (⟨j, hj, h⟩ | rfl)
      · exact ⟨j, hj.trans k.lt_succ_self, h⟩
      · exact ⟨k, k.lt_succ_self, rfl⟩
    · rintro ⟨j, hj, rfl⟩
      rcases Nat.lt_succ_iff_lt_or_eq.mp hj with hlt | rfl
      · exact .inl ⟨j, hlt, rfl⟩
      · exact .inr rfl

theorem nodup_ringSlice_id {p : Fin n} {k : ℕ} (hk : k ≤ n) : (ringSlice id p k).Nodup := by
  induction k with
  | zero => exact List.nodup_nil
  | succ k ih =>
    rw [ringSlice_concat, List.nodup_append]
    refine ⟨ih (by omega), List.nodup_singleton _, ?_⟩
    rintro q hq _ hlast rfl
    rw [List.mem_singleton, id] at hlast
    obtain ⟨j, hj, hplace⟩ := mem_ringSlice_id.mp hq
    exact hj.ne (ringPlace_inj (by omega) (by omega) (hplace.trans hlast))

namespace RingPtrs

variable {p q : RingPtrs n} {ram : Fin n → α}

/-- The places in use, the oldest first. -/
def tags (p : RingPtrs n) : List (Fin n) := p.held id

/-- What is held, with the tags. -/
def tagged (p : RingPtrs n) (ram : Fin n → α) : List (Fin n × α) := p.tags.map fun t => (t, ram t)

theorem length_tags : p.tags.length = p.count := length_held

theorem length_tagged : (p.tagged ram).length = p.count := by
  rw [tagged, List.length_map, length_tags]

theorem map_fst_tagged : (p.tagged ram).map Prod.fst = p.tags := by
  rw [tagged, List.map_map]
  exact List.map_id _

theorem nodup_tags : p.tags.Nodup := nodup_ringSlice_id count_le

theorem mem_tagged {e : Fin n × α} : e ∈ p.tagged ram ↔ e.1 ∈ p.tags ∧ e.2 = ram e.1 := by
  rw [tagged, List.mem_map]
  constructor
  · rintro ⟨t, ht, rfl⟩
    exact ⟨ht, rfl⟩
  · rintro ⟨ht, he⟩
    exact ⟨e.1, ht, by rw [← he]⟩

theorem head?_tags (h : p.empty = false) : p.tags.head? = some p.deq := by
  obtain ⟨l, hl⟩ := held_eq_cons id h
  rw [tags, hl]
  rfl

theorem head?_tagged (h : p.empty = false) : (p.tagged ram).head? = some (p.deq, ram p.deq) := by
  rw [tagged, List.head?_map, head?_tags h, Option.map_some]

omit [NeZero n] in
theorem count_congr (henq : p.enq = q.enq) (hdeq : p.deq = q.deq)
    (hfull : p.enq = p.deq → p.maybeFull = q.maybeFull) : p.count = q.count := by
  rw [count, count, ← henq, ← hdeq]
  split
  · rename_i h
    rw [hfull h]
  · rfl

theorem tags_congr (henq : p.enq = q.enq) (hdeq : p.deq = q.deq)
    (hfull : p.enq = p.deq → p.maybeFull = q.maybeFull) : p.tags = q.tags := by
  rw [tags, held, count_congr henq hdeq hfull, hdeq]
  rfl

variable {doEnq doDeq : Bool}

theorem tags_next (henq : doEnq = true → p.full = false) (hdeq : doDeq = true → p.empty = false) :
    (p.next doEnq doDeq).tags =
      (if doDeq then p.tags.tail else p.tags) ++ if doEnq then [p.enq] else [] := by
  have hstep := fifoStep id p.enq (fun h => .inl (henq h)) hdeq
  have hram : (if doEnq then Function.update id p.enq p.enq else id) = (id : Fin n → Fin n) := by
    split
    · exact Function.update_eq_self p.enq id
    · rfl
  rw [hram, FifoStep] at hstep
  cases doDeq with
  | false => exact hstep.symm
  | true =>
    obtain ⟨l, hl⟩ := held_eq_cons id (hdeq rfl)
    rw [hl] at hstep
    rw [tags, tags, hl]
    exact (List.cons.inj hstep).2.symm

/-- **One cycle of the tagged elements.** What is in the memory afterwards need only be known for
the tags that are held. -/
theorem tagged_next {ram' : Fin n → α} {g : Fin n → α → α} {x : α}
    (henq : doEnq = true → p.full = false) (hdeq : doDeq = true → p.empty = false)
    (hram : ∀ k ∈ (p.next doEnq doDeq).tags,
      ram' k = g k (if doEnq = true ∧ k = p.enq then x else ram k)) :
    (p.next doEnq doDeq).tagged ram' =
      ((if doDeq then (p.tagged ram).tail else p.tagged ram) ++
        if doEnq then [(p.enq, x)] else []).map fun e => (e.1, g e.1 e.2) := by
  have htags := tags_next henq hdeq
  have hnodup : (p.next doEnq doDeq).tags.Nodup := nodup_tags
  rw [htags] at hram hnodup
  rw [List.nodup_append] at hnodup
  rw [tagged, htags, List.map_append, List.map_append]
  have hold : ∀ k ∈ (if doDeq then p.tags.tail else p.tags), ram' k = g k (ram k) := by
    intro k hk
    rw [hram k (List.mem_append_left _ hk), if_neg]
    rintro ⟨hdo, rfl⟩
    rw [if_pos hdo] at hnodup
    exact hnodup.2.2 _ hk _ (List.mem_singleton_self _) rfl
  congr 1
  · have hmap (l : List (Fin n)) (h : ∀ k ∈ l, ram' k = g k (ram k)) :
        l.map (fun t => (t, ram' t)) = (l.map fun t => (t, ram t)).map fun e =>
          (e.1, g e.1 e.2) := by
      rw [List.map_map]
      exact List.map_congr_left fun k hk => by rw [Function.comp, h k hk]
    cases doDeq with
    | false => exact hmap _ hold
    | true =>
      rw [if_pos rfl, if_pos rfl, tagged, ← List.map_tail]
      exact hmap _ hold
  · cases doEnq with
    | false => rfl
    | true =>
      have hnew := hram p.enq (List.mem_append_right _ (List.mem_singleton_self _))
      rw [if_pos ⟨rfl, rfl⟩] at hnew
      rw [if_pos rfl, if_pos rfl, List.map_singleton, List.map_singleton, hnew]

end RingPtrs

end RiscvSoc
