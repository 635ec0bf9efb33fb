import Mathlib.Data.List.Infix
import Mathlib.Data.List.Nodup
import Mathlib.Data.Nat.Bits
import Mathlib.Logic.Function.Iterate
import Mathlib.Tactic.Ring

/-!
# Trees of pointers

A complete binary tree has a bit at every inner node, which points to one of the two subtrees. A
node is known by the directions on the way to it from the root, so a tree is a function from lists
of directions, and a leaf of a tree of depth `d` is a list of length `d`. Following the bits from
the root leads to a leaf, the victim. Touching a leaf turns the bits on the way to it away from it.

Touching the victim again and again, each node sends the rounds to its two subtrees in turn, and so
`2 ^ d` rounds come to every leaf once.

Nothing here knows about any particular circuit.
-/

namespace RiscvSoc

/-- The bits of a tree, by the way to them from the root. -/
abbrev PointerTree := List Bool → Bool

namespace PointerTree

variable {t : PointerTree} {b : Bool} {leaf p : List Bool}

/-- What is below one of the two directions. -/
def subtree (t : PointerTree) (b : Bool) : PointerTree := fun p => t (b :: p)

/-- Where the bits lead in a tree of depth `d`. -/
def victim : ℕ → PointerTree → List Bool
  | 0, _ => []
  | d + 1, t => t [] :: victim d (t.subtree (t []))

/-- The bits on the way to a leaf are turned away from it. -/
def touch (leaf : List Bool) (t : PointerTree) : PointerTree := fun p =>
  if p ++ [true] <+: leaf then false
  else if p ++ [false] <+: leaf then true
  else t p

/-- Touching the victim. -/
def round (d : ℕ) (t : PointerTree) : PointerTree := t.touch (victim d t)

theorem length_victim (d : ℕ) (t : PointerTree) : (victim d t).length = d := by
  induction d generalizing t with
  | zero => rfl
  | succ d ih => rw [victim, List.length_cons, ih]

/-! ### One touch -/

theorem touch_cons_nil : t.touch (b :: leaf) [] = !b := by
  cases b <;> simp [touch]

theorem subtree_touch_self : (t.touch (b :: leaf)).subtree b = (t.subtree b).touch leaf := by
  funext p
  simp only [subtree, touch, List.cons_append, List.cons_prefix_cons, true_and]

theorem subtree_touch_of_ne {b' : Bool} (h : b' ≠ b) :
    (t.touch (b :: leaf)).subtree b' = t.subtree b' := by
  funext p
  simp only [subtree, touch, List.cons_append, List.cons_prefix_cons, h, false_and, if_false]

/-- **What was touched is not the next victim.** -/
theorem victim_touch_ne {d : ℕ} (h : leaf.length = d + 1) :
    victim (d + 1) (t.touch leaf) ≠ leaf := by
  obtain ⟨b, leaf, rfl⟩ := List.exists_cons_of_length_eq_add_one h
  rw [victim, touch_cons_nil]
  intro heq
  exact Bool.not_ne_self b (List.cons.inj heq).1

/-! ### Rounds -/

theorem round_nil (d : ℕ) : round (d + 1) t [] = !t [] := by
  rw [round, victim, touch_cons_nil]

theorem subtree_round (d : ℕ) : (round (d + 1) t).subtree b =
    if b = t [] then round d (t.subtree b) else t.subtree b := by
  rw [round, victim]
  split
  · rename_i h
    subst h
    rw [subtree_touch_self, round]
  · rename_i h
    exact subtree_touch_of_ne h

/-- **A node sends the rounds to its two subtrees in turn.** -/
theorem iterate_round_two_mul (d k : ℕ) (t : PointerTree) :
    (round (d + 1))^[2 * k] t [] = t [] ∧
      ∀ b, ((round (d + 1))^[2 * k] t).subtree b = (round d)^[k] (t.subtree b) := by
  induction k with
  | zero => exact ⟨rfl, fun _ => rfl⟩
  | succ k ih =>
    obtain ⟨hroot, hsub⟩ := ih
    have hnext : (round (d + 1))^[2 * (k + 1)] t =
        round (d + 1) (round (d + 1) ((round (d + 1))^[2 * k] t)) := by
      rw [show 2 * (k + 1) = 2 * k + 1 + 1 by ring, Function.iterate_succ_apply',
        Function.iterate_succ_apply']
    rw [hnext]
    refine ⟨by rw [round_nil, round_nil, hroot, Bool.not_not], fun b => ?_⟩
    rw [subtree_round, round_nil, subtree_round, hroot, hsub, Function.iterate_succ_apply']
    cases b <;> cases t [] <;> simp

theorem victim_iterate_round (d k : ℕ) (r : Bool) (t : PointerTree) :
    victim (d + 1) ((round (d + 1))^[2 * k + r.toNat] t) =
      (t []).xor r :: victim d ((round d)^[k] (t.subtree ((t []).xor r))) := by
  obtain ⟨hroot, hsub⟩ := iterate_round_two_mul d k t
  cases r with
  | false =>
    simp only [Bool.toNat_false, Nat.add_zero, Bool.xor_false]
    rw [victim, hroot, hsub]
  | true =>
    have hne : ¬(!t []) = t [] := Bool.not_ne_self _
    rw [Bool.toNat_true, Function.iterate_succ_apply', victim, round_nil, subtree_round, hroot,
      if_neg hne, hsub, Bool.xor_true]

/-- **`2 ^ d` rounds come to distinct leaves.** -/
theorem victim_iterate_round_inj {d : ℕ} (t : PointerTree) {i j : ℕ} (hi : i < 2 ^ d)
    (hj : j < 2 ^ d) (h : victim d ((round d)^[i] t) = victim d ((round d)^[j] t)) : i = j := by
  induction d generalizing t i j with
  | zero => omega
  | succ d ih =>
    have hsplit : ∀ k, 2 * (k / 2) + (k.bodd).toNat = k := fun k => by
      rw [← Nat.mod_two_of_bodd]
      exact Nat.div_add_mod k 2
    rw [← hsplit i, ← hsplit j, victim_iterate_round, victim_iterate_round] at h
    obtain ⟨hhead, htail⟩ := List.cons.inj h
    have hbit : i.bodd = j.bodd := Bool.xor_right_inj.mp hhead
    rw [pow_succ'] at hi hj
    rw [hbit] at htail
    have hhalf := ih _ (by omega) (by omega) htail
    rw [← hsplit i, ← hsplit j, hbit, hhalf]

theorem victims_nodup (d : ℕ) (t : PointerTree) :
    ((List.range (2 ^ d)).map fun k => victim d ((round d)^[k] t)).Nodup :=
  List.Nodup.map_on (fun _ hi _ hj => victim_iterate_round_inj t (List.mem_range.mp hi)
    (List.mem_range.mp hj)) List.nodup_range

end PointerTree

end RiscvSoc
