import Mathlib.Data.List.Basic
import Mathlib.Logic.Function.Basic

/-!
# Items on their way out

Items are accepted, numbered in that order, wait in places that each have room for one, move from
place to place and are sent. The outbox keeps who holds what; in a sound outbox every item that
was accepted and not sent is held in exactly one place.

Nothing here knows about any particular system.
-/

namespace RiscvSoc

open Function

/-- The items accepted, the numbers of those sent, and the number held in each place. -/
structure Outbox (H α : Type) where
  accepted : List α
  sent : List ℕ
  held : H → Option ℕ

namespace Outbox

variable {H α : Type} {o : Outbox H α} {a : α} {h h' k : H}

def empty : Outbox H α := ⟨[], [], fun _ => none⟩

/-- The item in place `h`. -/
def item (o : Outbox H α) (h : H) : Option α := (o.held h).bind fun id => o.accepted[id]?

/-- Every copy of `a` that was accepted has been sent. -/
def AllSent (o : Outbox H α) (a : α) : Prop := ∀ id, o.accepted[id]? = some a → id ∈ o.sent

/-- No item is lost, held twice, or held after it was sent. -/
structure Sound (o : Outbox H α) : Prop where
  lt : ∀ h id, o.held h = some id → id < o.accepted.length
  unsent : ∀ h id, o.held h = some id → id ∉ o.sent
  inj : ∀ h h' id, o.held h = some id → o.held h' = some id → h = h'
  kept : ∀ id, id < o.accepted.length → id ∈ o.sent ∨ ∃ h, o.held h = some id
  sent_lt : ∀ id ∈ o.sent, id < o.accepted.length

theorem Sound.empty : (empty : Outbox H α).Sound :=
  ⟨nofun, nofun, nofun, nofun, nofun⟩

/-- **All sent.** Every copy of `a` has been sent exactly if no place holds one. -/
theorem Sound.allSent_iff (ho : o.Sound) : o.AllSent a ↔ ∀ h, o.item h ≠ some a := by
  constructor
  · intro hall h hitem
    obtain ⟨id, hid, ha⟩ := Option.bind_eq_some_iff.mp hitem
    exact ho.unsent h id hid (hall id ha)
  · intro hnone id ha
    rcases ho.kept id (List.getElem?_eq_some_iff.mp ha).1 with hsent | ⟨h, hid⟩
    · exact hsent
    · exact absurd (by rw [item, hid]; exact ha) (hnone h)

theorem Sound.held_eq_none (ho : o.Sound) (hitem : o.item h = none) : o.held h = none := by
  rcases hh : o.held h with _ | id
  · rfl
  · rw [item, hh] at hitem
    exact absurd (List.getElem?_eq_none_iff.mp hitem) (by simpa using ho.lt h id hh)

variable [DecidableEq H]

/-- A new item goes to place `h`. -/
def accept (o : Outbox H α) (h : H) (a : α) : Outbox H α where
  accepted := o.accepted ++ [a]
  sent := o.sent
  held := update o.held h (some o.accepted.length)

/-- What place `h` holds goes to place `h'`. -/
def move (o : Outbox H α) (h h' : H) : Outbox H α :=
  { o with held := update (update o.held h' (o.held h)) h none }

/-- What place `h` holds is sent. -/
def send (o : Outbox H α) (h : H) : Outbox H α :=
  { o with sent := o.sent ++ (o.held h).toList, held := update o.held h none }

theorem held_accept_self : (o.accept h a).held h = some o.accepted.length :=
  update_self ..

theorem held_accept_of_ne (hne : k ≠ h) : (o.accept h a).held k = o.held k :=
  update_of_ne hne ..

theorem held_move_self : (o.move h h').held h = none := update_self ..

theorem held_move_target (hne : h ≠ h') : (o.move h h').held h' = o.held h :=
  (update_of_ne hne.symm ..).trans (update_self ..)

theorem held_move_of_ne (hne : k ≠ h) (hne' : k ≠ h') : (o.move h h').held k = o.held k :=
  (update_of_ne hne ..).trans (update_of_ne hne' ..)

theorem held_send_self : (o.send h).held h = none := update_self ..

theorem held_send_of_ne (hne : k ≠ h) : (o.send h).held k = o.held k :=
  update_of_ne hne ..

namespace Sound

theorem accept (ho : o.Sound) (hfree : o.held h = none) : (o.accept h a).Sound := by
  have hlen : (o.accept h a).accepted.length = o.accepted.length + 1 := by simp [Outbox.accept]
  have hheld : ∀ k id, (o.accept h a).held k = some id →
      k = h ∧ id = o.accepted.length ∨ k ≠ h ∧ o.held k = some id := by
    intro k id hk
    by_cases hkh : k = h
    · subst hkh
      rw [held_accept_self] at hk
      exact .inl ⟨rfl, (Option.some.inj hk).symm⟩
    · rw [held_accept_of_ne hkh] at hk
      exact .inr ⟨hkh, hk⟩
  refine ⟨fun k id hk => ?_, fun k id hk => ?_, fun k k' id hk hk' => ?_, fun id hid => ?_,
    fun id hid => ?_⟩
  · rcases hheld k id hk with ⟨_, rfl⟩ | ⟨_, hk⟩
    · omega
    · have := ho.lt k id hk
      omega
  · rcases hheld k id hk with ⟨_, rfl⟩ | ⟨_, hk⟩
    · exact fun hsent => absurd (ho.sent_lt _ hsent) (Nat.lt_irrefl _)
    · exact ho.unsent k id hk
  · rcases hheld k id hk with ⟨hkh, hid⟩ | ⟨_, hold⟩ <;>
      rcases hheld k' id hk' with ⟨hkh', hid'⟩ | ⟨_, hold'⟩
    · exact hkh.trans hkh'.symm
    · exact absurd (hid ▸ ho.lt k' id hold') (Nat.lt_irrefl _)
    · exact absurd (hid' ▸ ho.lt k id hold) (Nat.lt_irrefl _)
    · exact ho.inj k k' id hold hold'
  · rcases Nat.lt_succ_iff_lt_or_eq.mp (hlen ▸ hid) with hid | rfl
    · rcases ho.kept id hid with hsent | ⟨k, hk⟩
      · exact .inl hsent
      · refine .inr ⟨k, ?_⟩
        have hkh : k ≠ h := by
          rintro rfl
          rw [hfree] at hk
          cases hk
        rw [held_accept_of_ne hkh, hk]
    · exact .inr ⟨h, held_accept_self⟩
  · have := ho.sent_lt id hid
    omega

theorem move (ho : o.Sound) (hfree : o.held h' = none) (hne : h ≠ h') : (o.move h h').Sound := by
  have hheld : ∀ k id, (o.move h h').held k = some id →
      k = h' ∧ o.held h = some id ∨ k ≠ h ∧ k ≠ h' ∧ o.held k = some id := by
    intro k id hk
    by_cases hkh : k = h
    · subst hkh
      rw [held_move_self] at hk
      cases hk
    · by_cases hkh' : k = h'
      · subst hkh'
        rw [held_move_target hne] at hk
        exact .inl ⟨rfl, hk⟩
      · rw [held_move_of_ne hkh hkh'] at hk
        exact .inr ⟨hkh, hkh', hk⟩
  refine ⟨fun k id hk => ?_, fun k id hk => ?_, fun k k' id hk hk' => ?_, fun id hid => ?_,
    ho.sent_lt⟩
  · rcases hheld k id hk with ⟨_, hk⟩ | ⟨_, _, hk⟩ <;> exact ho.lt _ id hk
  · rcases hheld k id hk with ⟨_, hk⟩ | ⟨_, _, hk⟩ <;> exact ho.unsent _ id hk
  · rcases hheld k id hk with ⟨hkh, hold⟩ | ⟨hkh, _, hold⟩ <;>
      rcases hheld k' id hk' with ⟨hkh', hold'⟩ | ⟨hkh', _, hold'⟩
    · exact hkh.trans hkh'.symm
    · exact absurd (ho.inj k' h id hold' hold) hkh'
    · exact absurd (ho.inj k h id hold hold') hkh
    · exact ho.inj k k' id hold hold'
  · rcases ho.kept id hid with hsent | ⟨k, hk⟩
    · exact .inl hsent
    · by_cases hkh : k = h
      · subst hkh
        exact .inr ⟨h', by rw [held_move_target hne, hk]⟩
      · refine .inr ⟨k, ?_⟩
        have hkh' : k ≠ h' := by
          rintro rfl
          rw [hfree] at hk
          cases hk
        rw [held_move_of_ne hkh hkh', hk]

theorem send (ho : o.Sound) : (o.send h).Sound := by
  have hheld : ∀ k id, (o.send h).held k = some id → k ≠ h ∧ o.held k = some id := by
    intro k id hk
    by_cases hkh : k = h
    · subst hkh
      rw [held_send_self] at hk
      cases hk
    · rw [held_send_of_ne hkh] at hk
      exact ⟨hkh, hk⟩
  have hmem : ∀ id, id ∈ (o.send h).sent ↔ id ∈ o.sent ∨ o.held h = some id := by
    intro id
    simp [Outbox.send]
  refine ⟨fun k id hk => ho.lt k id (hheld k id hk).2, fun k id hk => ?_,
    fun k k' id hk hk' => ho.inj k k' id (hheld k id hk).2 (hheld k' id hk').2, fun id hid => ?_,
    fun id hid => ?_⟩
  · obtain ⟨hkh, hk⟩ := hheld k id hk
    rw [hmem, not_or]
    exact ⟨ho.unsent k id hk, fun hh => hkh (ho.inj k h id hk hh)⟩
  · rcases ho.kept id hid with hsent | ⟨k, hk⟩
    · exact .inl ((hmem id).mpr (.inl hsent))
    · by_cases hkh : k = h
      · subst hkh
        exact .inl ((hmem id).mpr (.inr hk))
      · refine .inr ⟨k, ?_⟩
        rw [held_send_of_ne hkh, hk]
  · rcases (hmem id).mp hid with hsent | hh
    · exact ho.sent_lt id hsent
    · exact ho.lt h id hh

end Sound

/-! ### The item in a place -/

theorem item_accept (ho : o.Sound) (k : H) :
    (o.accept h a).item k = if k = h then some a else o.item k := by
  by_cases hkh : k = h
  · subst hkh
    rw [if_pos rfl, item, held_accept_self]
    exact List.getElem?_concat_length ..
  · rw [if_neg hkh, item, item, held_accept_of_ne hkh]
    rcases hk : o.held k with _ | id
    · rfl
    · exact List.getElem?_append_left (ho.lt k id hk)

theorem item_move (hne : h ≠ h') (k : H) :
    (o.move h h').item k = if k = h then none else if k = h' then o.item h else o.item k := by
  rw [item]
  by_cases hkh : k = h
  · subst hkh
    rw [if_pos rfl, held_move_self]
    rfl
  · rw [if_neg hkh]
    by_cases hkh' : k = h'
    · subst hkh'
      rw [if_pos rfl, held_move_target hne]
      rfl
    · rw [if_neg hkh', held_move_of_ne hkh hkh']
      rfl

theorem item_send (k : H) : (o.send h).item k = if k = h then none else o.item k := by
  rw [item]
  by_cases hkh : k = h
  · subst hkh
    rw [if_pos rfl, held_send_self]
    rfl
  · rw [if_neg hkh, held_send_of_ne hkh]
    rfl

end Outbox

end RiscvSoc
