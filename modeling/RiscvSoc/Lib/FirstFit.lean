import Mathlib.Data.List.FinRange
import Mathlib.Data.Fin.Basic

/-!
# First fit

Places are looked at one after the other, and each free one goes to the first seeker that has none
yet. So seeker `w` gets the `w`-th free place.

Nothing here knows about any particular circuit.
-/

namespace RiscvSoc

namespace FirstFit

variable {α : Type} {n : ℕ} (free : α → Bool)

/-- One place of the search. -/
def allocate (acc : Fin n → Option α) (a : α) : Fin n → Option α := fun w =>
  if free a && decide (∀ x < w, (acc x).isSome = true) && (acc w).isNone then some a else acc w

/-- What each seeker is offered after a search through `l`. -/
def offers (l : List α) : Fin n → Option α := l.foldl (allocate free) fun _ => none

theorem foldl_allocate (l₀ l : List α) (acc : Fin n → Option α)
    (hacc : ∀ w, acc w = (l₀.filter free)[w.val]?) (w : Fin n) :
    l.foldl (allocate free) acc w = ((l₀ ++ l).filter free)[w.val]? := by
  induction l generalizing l₀ acc with
  | nil => simpa using hacc w
  | cons a l ih =>
    rw [List.foldl_cons, List.append_cons]
    refine ih (l₀ ++ [a]) _ fun w => ?_
    -- the place goes to the seeker whose number is the count of the free places found so far
    rw [List.filter_append, allocate]
    cases hfree : free a with
    | false => simp [hacc, hfree]
    | true =>
      have hgiven : (∀ x < w, (acc x).isSome = true) ↔ (w : ℕ) ≤ (l₀.filter free).length := by
        refine ⟨fun h => ?_, fun h x hx => ?_⟩
        · by_contra hlt
          have hx := h ⟨(l₀.filter free).length, (by omega : _ < (w : ℕ)).trans w.isLt⟩
            (by simp only [Fin.lt_def]; omega)
          simp [hacc] at hx
        · rw [hacc, List.getElem?_eq_getElem ((Fin.lt_def.mp hx).trans_le h)]
          rfl
      simp only [hgiven, List.filter_cons_of_pos hfree, List.filter_nil, Bool.true_and]
      rw [hacc]
      rcases lt_trichotomy (w : ℕ) (l₀.filter free).length with hlt | heq | hgt
      · rw [List.getElem?_append_left hlt, List.getElem?_eq_getElem hlt]
        simp
      · simp [heq]
      · rw [List.getElem?_eq_none hgt.le, List.getElem?_eq_none (by simp; omega)]
        simp [hgt]

variable {free} {l : List α}

/-- Seeker `w` is offered the `w`-th free place. -/
theorem offers_eq (w : Fin n) : offers free l w = (l.filter free)[w.val]? :=
  foldl_allocate free [] l (fun _ => none) (by simp) w

theorem offers_inj (hnodup : l.Nodup) {v w : Fin n} {a : α} (hv : offers free l v = some a)
    (hw : offers free l w = some a) : v = w := by
  rw [offers_eq] at hv hw
  obtain ⟨hlt, _⟩ := List.getElem?_eq_some_iff.mp hv
  exact Fin.ext ((List.getElem?_inj hlt (hnodup.filter free)).mp (hv.trans hw.symm))

theorem of_offers {w : Fin n} {a : α} (h : offers free l w = some a) :
    a ∈ l ∧ free a = true := by
  rw [offers_eq] at h
  exact List.mem_filter.mp (List.mem_of_getElem? h)

end FirstFit

end RiscvSoc
