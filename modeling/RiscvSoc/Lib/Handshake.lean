import Mathlib.Data.List.Basic

/-!
# A transaction of several parties

A circuit that takes an item and passes it on to several others writes its handshake with a function
`fire(exclude, include)`: all conditions of a list hold but the excluded one. The condition of a
party is that it is ready, or that it has no part in the item. What a party is shown does not depend
on its own `ready`, and still all parties get the item in the same cycle.
-/

namespace RiscvSoc

namespace Handshake

variable {ι : Type} [DecidableEq ι] (guards : List ι) (ok : ι → Bool)

/-- Every condition holds but the excluded one. -/
def fire (exclude : Option ι) : Bool := (guards.filter fun g => decide (some g ≠ exclude)).all ok

variable {guards ok}

theorem fire_none : fire guards ok none = guards.all ok := by
  rw [fire]
  congr 1
  exact List.filter_eq_self.mpr fun g _ => decide_eq_true (Option.some_ne_none g)

theorem fire_some {g : ι} (hg : g ∈ guards) :
    (fire guards ok (some g) && ok g) = fire guards ok none := by
  rw [fire_none, fire, Bool.eq_iff_iff, Bool.and_eq_true, List.all_eq_true, List.all_eq_true]
  constructor
  · rintro ⟨hothers, hown⟩ g' hg'
    by_cases heq : g' = g
    · rw [heq, hown]
    · refine hothers g' (List.mem_filter.mpr ⟨hg', decide_eq_true fun h => heq ?_⟩)
      exact Option.some.inj h
  · intro h
    exact ⟨fun g' hg' => h g' (List.mem_of_mem_filter hg'), h g hg⟩

/-- A party gets the item when all conditions hold and it has a part in it. -/
theorem fire_party {g : ι} (hg : g ∈ guards) {enq ready : Bool} (hok : ok g = (!enq || ready)) :
    (fire guards ok (some g) && enq && ready) = (fire guards ok none && enq) := by
  rw [← fire_some hg, hok]
  cases fire guards ok (some g) <;> cases enq <;> cases ready <;> rfl

end Handshake

end RiscvSoc
