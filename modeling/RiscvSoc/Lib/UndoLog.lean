import Mathlib.Data.Finset.Card
import Mathlib.Data.Fintype.Basic
import Mathlib.Data.Fintype.Defs
import Mathlib.Logic.Function.Basic

/-!
# Undo logs

A table is overwritten one key at a time, and each overwrite remembers what it replaced. From the
table and the log one can go back: a key that is overwritten somewhere in the log had the old value
of its *first* overwrite.

No value is lost on the way. What the table holds before, together with what the log brings in, is
what it holds afterwards together with what the log replaced.
-/

namespace RiscvSoc

open Function

/-- One entry of a log. -/
structure Overwrite (α β : Type) where
  key : α
  new : β
  old : β

variable {α β : Type} [DecidableEq α]

/-- The table after a log. -/
def replay (m : α → β) (l : List (Overwrite α β)) : α → β :=
  l.foldl (fun m e => update m e.key e.new) m

/-- Each entry remembers what it replaced. -/
def Consistent : (α → β) → List (Overwrite α β) → Prop
  | _, [] => True
  | m, e :: l => e.old = m e.key ∧ Consistent (update m e.key e.new) l

variable (m : α → β)

theorem replay_nil : replay m [] = m := rfl

theorem replay_cons (e : Overwrite α β) (l : List (Overwrite α β)) :
    replay m (e :: l) = replay (update m e.key e.new) l := rfl

theorem replay_append (l l' : List (Overwrite α β)) :
    replay m (l ++ l') = replay (replay m l) l' := List.foldl_append

theorem consistent_append {m : α → β} {l l' : List (Overwrite α β)} :
    Consistent m (l ++ l') ↔ Consistent m l ∧ Consistent (replay m l) l' := by
  induction l generalizing m with
  | nil => simp [Consistent, replay_nil]
  | cons e l ih => rw [List.cons_append, Consistent, Consistent, ih, replay_cons, and_assoc]

theorem replay_of_forall_ne {m : α → β} {l : List (Overwrite α β)} {k : α}
    (h : ∀ e ∈ l, e.key ≠ k) : replay m l k = m k := by
  induction l generalizing m with
  | nil => rfl
  | cons e l ih =>
    rw [replay_cons, ih fun e' he' => h e' (List.mem_cons_of_mem e he'),
      update_of_ne (h e List.mem_cons_self).symm]

/-- What a table says after a log is what it said before, or was written by an entry. -/
theorem replay_eq_or (l : List (Overwrite α β)) (k : α) :
    replay m l k = m k ∨ ∃ e ∈ l, e.new = replay m l k := by
  induction l generalizing m with
  | nil => exact .inl rfl
  | cons e l ih =>
    rw [replay_cons]
    rcases ih (update m e.key e.new) with h | ⟨e', he', h⟩
    · by_cases hk : k = e.key
      · subst hk
        rw [update_self] at h
        exact .inr ⟨e, List.mem_cons_self, h.symm⟩
      · rw [update_of_ne hk] at h
        exact .inl h
    · exact .inr ⟨e', List.mem_cons_of_mem e he', h⟩

/-- **Going back over a log.** -/
theorem undo_eq {m : α → β} {l : List (Overwrite α β)} (h : Consistent m l) (k : α) :
    ((l.find? fun e => decide (e.key = k)).map (·.old)).getD (replay m l k) = m k := by
  induction l generalizing m with
  | nil => rfl
  | cons e l ih =>
    obtain ⟨hold, hrest⟩ := h
    by_cases hk : e.key = k
    · subst hk
      rw [List.find?_cons_of_pos (by simp)]
      exact hold
    · rw [List.find?_cons_of_neg (by simpa using hk), replay_cons, ih hrest,
        update_of_ne (Ne.symm hk)]

variable [Fintype α] [DecidableEq β]

theorem card_update (m : α → β) (a : α) (v b : β) :
    (Finset.univ.filter fun x => update m a v x = b).card + (if m a = b then 1 else 0) =
      (Finset.univ.filter fun x => m x = b).card + if v = b then 1 else 0 := by
  have hsplit : ∀ f : α → β, (Finset.univ.filter fun x => f x = b).card =
      (if f a = b then 1 else 0) + ((Finset.univ.erase a).filter fun x => f x = b).card := by
    intro f
    rw [← Finset.insert_erase (Finset.mem_univ a), Finset.filter_insert]
    split
    · rw [Finset.card_insert_of_notMem (by simp), Finset.erase_insert (by simp), Nat.add_comm]
    · rw [Finset.erase_insert (by simp), Nat.zero_add]
  have hsame : ((Finset.univ.erase a).filter fun x => update m a v x = b) =
      (Finset.univ.erase a).filter fun x => m x = b := by
    refine Finset.filter_congr fun x hx => ?_
    rw [update_of_ne (Finset.ne_of_mem_erase hx)]
  rw [hsplit, hsplit m, hsame, update_self]
  omega

/-- **No value is lost**: what a table held and what the log brought in is what it holds and what
the log replaced. -/
theorem card_replay {m : α → β} {l : List (Overwrite α β)} (h : Consistent m l) (b : β) :
    (Finset.univ.filter fun a => replay m l a = b).card + (l.map (·.old)).count b =
      (Finset.univ.filter fun a => m a = b).card + (l.map (·.new)).count b := by
  induction l generalizing m with
  | nil => rfl
  | cons e l ih =>
    obtain ⟨hold, hrest⟩ := h
    have hstep := card_update m e.key e.new b
    have hrec := ih hrest
    rw [replay_cons, List.map_cons, List.map_cons, List.count_cons, List.count_cons, hold]
    simp only [beq_iff_eq]
    omega

end RiscvSoc
