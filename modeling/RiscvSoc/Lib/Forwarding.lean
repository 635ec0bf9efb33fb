import Mathlib.Data.List.Basic
import Mathlib.Logic.Function.Basic

/-!
# Forwarding

Values under way to a memory, and the two ways to look at them: as writes that are about to be done,
and as sources that are asked before the memory is. Sources are asked in order, the first one that
offers the address answers; of the writes to an address the last one stays.

Neither order matters where all that is under way to an address is the same value, and that is how
both are used: the rules below only ask that the sources agree.

Nothing here knows about any particular memory.
-/

namespace RiscvSoc

namespace Forwarding

variable {α β : Type} [DecidableEq α] {a : α} {d v : β} {m : α → β} {l : List (α × β)}

/-- What the first source for `a` offers, or else `d`. -/
def pick (l : List (α × β)) (a : α) (d : β) : β :=
  match l.find? fun x => decide (x.1 = a) with
  | some x => x.2
  | none => d

/-- The memory after some writes. -/
def writeAll (m : α → β) (l : List (α × β)) : α → β :=
  l.foldl (fun m x => Function.update m x.1 x.2) m

theorem pick_of_not_mem (h : ∀ x ∈ l, x.1 ≠ a) : pick l a d = d := by
  have hnone : (l.find? fun x => decide (x.1 = a)) = none := by
    rw [List.find?_eq_none]
    intro x hx
    rw [decide_eq_true_eq]
    exact h x hx
  rw [pick, hnone]

/-- **Sources that agree are as good as one.** -/
theorem pick_of_agree (h : ∀ x ∈ l, x.1 = a → x.2 = v) (hmem : ∃ x ∈ l, x.1 = a) :
    pick l a d = v := by
  obtain ⟨x, hx, hxa⟩ := hmem
  cases hfind : l.find? fun x => decide (x.1 = a) with
  | none =>
    have hno := List.find?_eq_none.mp hfind x hx
    rw [decide_eq_true_eq] at hno
    exact absurd hxa hno
  | some y =>
    have hy := List.find?_some hfind
    rw [decide_eq_true_eq] at hy
    rw [pick, hfind]
    exact h y (List.mem_of_find?_eq_some hfind) hy

theorem writeAll_cons (x : α × β) : writeAll m (x :: l) = writeAll (Function.update m x.1 x.2) l :=
  rfl

theorem writeAll_of_not_mem (h : ∀ x ∈ l, x.1 ≠ a) : writeAll m l a = m a := by
  induction l generalizing m with
  | nil => rfl
  | cons x l ih =>
    rw [writeAll_cons, ih fun y hy => h y (List.mem_cons_of_mem x hy),
      Function.update_of_ne (Ne.symm (h x List.mem_cons_self))]

/-- **Writes that agree are as good as one.** -/
theorem writeAll_of_agree (h : ∀ x ∈ l, x.1 = a → x.2 = v) (hmem : ∃ x ∈ l, x.1 = a) :
    writeAll m l a = v := by
  induction l generalizing m with
  | nil =>
    obtain ⟨x, hx, -⟩ := hmem
    cases hx
  | cons x l ih =>
    rw [writeAll_cons]
    by_cases hlater : ∃ y ∈ l, y.1 = a
    · exact ih (fun y hy => h y (List.mem_cons_of_mem x hy)) hlater
    · -- the first write is the only one
      obtain ⟨y, hy, hya⟩ := hmem
      have hno : ∀ z ∈ l, z.1 ≠ a := fun z hz hza => hlater ⟨z, hz, hza⟩
      rcases List.mem_cons.mp hy with rfl | hy
      · rw [writeAll_of_not_mem hno, hya, Function.update_self]
        exact h y List.mem_cons_self hya
      · exact absurd hya (hno y hy)

end Forwarding

end RiscvSoc
