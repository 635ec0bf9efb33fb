import RiscvSoc.Lib.PointerTree
import RiscvSoc.Rocket.TLB

/-!
# The replacement order

`PseudoLRU` of `rocket/src/main/scala/tlb.scala` for a power of two of ways. Its register is a tree
of pointers: bit `1` is the root, and the bits below bit `idx` are `2 * idx` and `2 * idx + 1`. The
bits of a way, from the highest one on, are the directions to it.
-/

namespace RiscvSoc

open Bits PointerTree

namespace PseudoLRU

/-! ### Numbers of nodes -/

/-- The number of a node. -/
def node (p : List Bool) : ℕ := p.foldl (fun idx b => cat idx 1 b.toNat) 1

/-- The way from the root to a way. -/
def directions (m way : ℕ) : List Bool := (List.range m).reverse.map way.testBit

theorem length_directions (m way : ℕ) : (directions m way).length = m := by
  rw [directions, List.length_map, List.length_reverse, List.length_range]

variable (p : List Bool)

theorem node_append (b : Bool) : node (p ++ [b]) = cat (node p) 1 b.toNat := by
  rw [node, List.foldl_append]
  rfl

theorem node_append_eq (b : Bool) : node (p ++ [b]) = 2 * node p + b.toNat := by
  rw [node_append, cat, pow_one, Nat.mul_comm]

theorem node_lt : node p < 2 ^ (p.length + 1) := by
  induction p using List.reverseRecOn with
  | nil => decide
  | append_singleton p b ih =>
    have hb := b.toNat_lt
    rw [node_append_eq, List.length_append, List.length_singleton, pow_succ 2 (p.length + 1)]
    omega

theorem directions_succ (m x : ℕ) :
    directions (m + 1) x = directions m (x / 2) ++ [x.testBit 0] := by
  rw [directions, List.range_succ_eq_map, List.reverse_cons, List.map_append, ← List.map_reverse,
    List.map_map]
  congr 1
  refine List.map_congr_left fun k _ => ?_
  exact Nat.testBit_succ x k

theorem directions_mod (m x : ℕ) : directions m (x % 2 ^ m) = directions m x := by
  refine List.map_congr_left fun k hk => ?_
  rw [Nat.testBit_mod_two_pow, decide_eq_true (List.mem_range.mp (List.mem_reverse.mp hk)),
    Bool.true_and]

theorem directions_node : directions p.length (node p) = p := by
  induction p using List.reverseRecOn with
  | nil => rfl
  | append_singleton p b ih =>
    have hdiv : node (p ++ [b]) / 2 = node p := by
      have hb := b.toNat_lt
      rw [node_append_eq]
      omega
    have hbit : (node (p ++ [b])).testBit 0 = b := by
      rw [node_append_eq, Nat.testBit_zero]
      cases b <;> simp
    rw [List.length_append, List.length_singleton, directions_succ, hdiv, ih, hbit]

theorem node_inj {p q : List Bool} (hlen : p.length = q.length) (h : node p = node q) : p = q := by
  rw [← directions_node p, ← directions_node q, hlen, h]

theorem node_ge : 2 ^ p.length ≤ node p := by
  induction p using List.reverseRecOn with
  | nil => exact le_rfl
  | append_singleton p b ih =>
    rw [node_append_eq, List.length_append, List.length_singleton, pow_succ]
    omega

theorem node_injective : Function.Injective node := by
  intro p q h
  refine node_inj ?_ h
  have hp : Nat.log 2 (node p) = p.length := Nat.log_eq_of_pow_le_of_lt_pow (node_ge p) (node_lt p)
  have hq : Nat.log 2 (node q) = q.length := Nat.log_eq_of_pow_le_of_lt_pow (node_ge q) (node_lt q)
  rw [← hp, ← hq, h]

/-! ### The register as a tree -/

section Walk

variable {n m : ℕ}

/-- The register as a tree of pointers. -/
def tree (state : Fin n → Bool) : PointerTree := fun p => bitAt state (node p)

theorem bitAt_bitSet {state : Fin n → Bool} {off j : ℕ} {dat : Bool} (hoff : off < n) :
    bitAt (bitSet state off dat) j = if j = off then dat else bitAt state j := by
  by_cases hj : j = off
  · subst hj
    rw [if_pos rfl, bitAt, dif_pos hoff]
    exact bitSet_self rfl
  · rw [if_neg hj]
    by_cases hlt : j < n
    · rw [bitAt, dif_pos hlt, bitAt, dif_pos hlt]
      exact bitSet_of_ne hj
    · rw [bitAt, dif_neg hlt, bitAt, dif_neg hlt]

/-- One step of the walk of `access`. -/
def accessStep (way : ℕ) (x : (Fin n → Bool) × ℕ) (i : ℕ) : (Fin n → Bool) × ℕ :=
  (bitSet x.1 x.2 !way.testBit i, cat x.2 1 (way.testBit i).toNat)

/-- **The walk of an access**, from a node on: the bits of the nodes that it comes to. -/
theorem bitAt_foldl_accessStep {way : ℕ} {l : List ℕ} {q : List Bool} (p : List Bool)
    (state : Fin (2 ^ m) → Bool) (hlen : q.length + l.length ≤ m) :
    bitAt (l.foldl (accessStep way) (state, node q)).1 (node p) =
      if q.length ≤ p.length then (tree state).touch (q ++ l.map way.testBit) p
      else tree state p := by
  induction l generalizing q state with
  | nil =>
    have hno : ∀ b, q.length ≤ p.length → ¬p ++ [b] <+: q ++ [] := fun b hle h => by
      have := h.length_le
      rw [List.length_append, List.length_append, List.length_singleton, List.length_nil] at this
      omega
    rw [List.map_nil, touch]
    split
    · rename_i hle
      rw [if_neg (hno true hle), if_neg (hno false hle)]
      rfl
    · rfl
  | cons i l ih =>
    rw [List.length_cons] at hlen
    have hoff : node q < 2 ^ m :=
      (node_lt q).trans_le (Nat.pow_le_pow_right two_pos (by omega))
    have hset : tree (bitSet state (node q) !way.testBit i) p =
        if p = q then !way.testBit i else tree state p := by
      rw [tree, bitAt_bitSet hoff]
      exact if_congr node_injective.eq_iff rfl rfl
    rw [List.foldl_cons, accessStep, ← node_append]
    have hih := ih (q := q ++ [way.testBit i]) (bitSet state (node q) !way.testBit i)
      (by rw [List.length_append, List.length_singleton]; omega)
    rw [hih, List.length_append, List.length_singleton, List.append_assoc, List.singleton_append,
      List.map_cons]
    rcases Nat.lt_trichotomy p.length q.length with hlt | heq | hgt
    · have hpq : p ≠ q := fun h => hlt.ne (congrArg List.length h)
      rw [if_neg (by omega), if_neg (by omega), hset, if_neg hpq]
    · rw [if_neg (by omega), if_pos heq.ge, hset]
      split
      · rename_i hpq
        subst hpq
        simp only [touch, List.prefix_append_right_inj]
        cases way.testBit i <;> simp
      · rename_i hpq
        have hno : ∀ b, ¬p ++ [b] <+: q ++ way.testBit i :: l.map way.testBit := fun b h => by
          have hp := (List.prefix_append p [b]).trans h
          exact hpq ((List.prefix_of_prefix_length_le hp (List.prefix_append q _)
            heq.le).eq_of_length heq)
        rw [touch, if_neg (hno true), if_neg (hno false)]
    · have hpq : p ≠ q := fun h => hgt.ne' (congrArg List.length h)
      rw [if_pos (by omega), if_pos hgt.le, touch, touch, hset, if_neg hpq]

/-- **An access touches the way.** -/
theorem tree_access (hm : log2Up (2 ^ m) = m) (state : Fin (2 ^ m) → Bool) (way : ℕ) :
    tree (access state way) = (tree state).touch (directions m way) := by
  funext p
  have h := @bitAt_foldl_accessStep m way (List.range m).reverse [] p state
    (by rw [List.length_reverse, List.length_range, List.length_nil, Nat.zero_add])
  rw [if_pos (show ([] : List Bool).length ≤ p.length from Nat.zero_le _)] at h
  rw [tree, access, hm]
  exact h

/-- The walk of `replace`, from a node on. -/
theorem foldl_replace (state : Fin n → Bool) (l : List ℕ) (q : List Bool) :
    l.foldl (fun idx _ => cat idx 1 (bitAt state idx).toNat) (node q) =
      node (q ++ victim l.length fun p => tree state (q ++ p)) := by
  induction l generalizing q with
  | nil => rw [List.length_nil, victim, List.append_nil, List.foldl_nil]
  | cons i l ih =>
    have hsub : (fun p => tree state (q ++ [bitAt state (node q)] ++ p)) =
        subtree (fun p => tree state (q ++ p)) (tree state q) := by
      funext p
      rw [subtree, List.append_assoc]
      rfl
    rw [List.foldl_cons, ← node_append, ih, hsub, List.length_cons, victim,
      List.append_nil, List.append_assoc, List.singleton_append]
    rfl

/-- **The way to replace is where the pointers lead.** -/
theorem replace_eq (hm : log2Up (2 ^ m) = m) (state : Fin (2 ^ m) → Bool) :
    replace state = node (victim m (tree state)) % 2 ^ m := by
  have h := foldl_replace state (List.range m) []
  rw [List.length_range] at h
  rw [replace, hm]
  exact congrArg (· % 2 ^ m) h

theorem directions_replace (hm : log2Up (2 ^ m) = m) (state : Fin (2 ^ m) → Bool) :
    directions m (replace state) = victim m (tree state) := by
  have h := directions_node (victim m (tree state))
  rw [length_victim] at h
  rw [replace_eq hm, directions_mod, h]

end Walk

/-! ### Rounds -/

/-- The way to replace is accessed. -/
def round {n : ℕ} (state : Fin n → Bool) : Fin n → Bool := access state (replace state)

theorem log2Up_two_pow {m : ℕ} (hm : 1 ≤ m) : log2Up (2 ^ m) = m := by
  obtain ⟨k, rfl⟩ := Nat.exists_eq_add_of_le' hm
  exact log2Up_eq (Nat.pow_lt_pow_right one_lt_two (Nat.lt_succ_self k)) le_rfl

theorem tree_iterate_round {m : ℕ} (hm : log2Up (2 ^ m) = m) (state : Fin (2 ^ m) → Bool) (k : ℕ) :
    tree (round^[k] state) = (PointerTree.round m)^[k] (tree state) := by
  induction k with
  | zero => rfl
  | succ k ih =>
    rw [Function.iterate_succ_apply', Function.iterate_succ_apply', ← ih, round, tree_access hm,
      directions_replace hm, PointerTree.round]

/-- **The replacement order is fair.** The way to replace is one of the ways and not the one that
was accessed last, and `2 ^ m` replacements replace each way once. -/
theorem replaces_fairly {m : ℕ} (hm : 1 ≤ m) (state : Fin (2 ^ m) → Bool) :
    replace state < 2 ^ m ∧ (∀ w < 2 ^ m, replace (access state w) ≠ w) ∧
      ((List.range (2 ^ m)).map fun k => replace (round^[k] state)).Perm (List.range (2 ^ m)) := by
  have hlog := log2Up_two_pow hm
  have hlt : ∀ st : Fin (2 ^ m) → Bool, replace st < 2 ^ m := fun st => by
    rw [replace_eq hlog]
    exact Nat.mod_lt _ (Nat.two_pow_pos m)
  refine ⟨hlt state, fun w _ heq => ?_, ?_⟩
  · obtain ⟨d, rfl⟩ := Nat.exists_eq_add_of_le' hm
    have h := directions_replace hlog (access state w)
    rw [heq, tree_access hlog] at h
    exact victim_touch_ne (length_directions _ w) h.symm
  · have hnodup : ((List.range (2 ^ m)).map fun k => replace (round^[k] state)).Nodup := by
      refine List.Nodup.of_map (directions m) ?_
      rw [List.map_map]
      have hmap : (directions m ∘ fun k => replace (round^[k] state)) =
          fun k => victim m ((PointerTree.round m)^[k] (tree state)) := by
        funext k
        rw [Function.comp_apply, directions_replace hlog, tree_iterate_round hlog]
      rw [hmap]
      exact victims_nodup m (tree state)
    refine (List.subperm_of_subset hnodup fun w hw => ?_).perm_of_length_le ?_
    · obtain ⟨k, -, rfl⟩ := List.mem_map.mp hw
      exact List.mem_range.mpr (hlt _)
    · rw [List.length_map]

theorem replaces_fairly_four : replace (access (fun _ : Fin (2 ^ 2) => false) 1) ≠ 1 ∧
    ((List.range (2 ^ 2)).map fun k => replace (round^[k] fun _ : Fin (2 ^ 2) => false)).Perm
      (List.range (2 ^ 2)) :=
  ⟨(replaces_fairly (by decide) fun _ => false).2.1 1 (by decide),
    (replaces_fairly (by decide) fun _ => false).2.2⟩

end PseudoLRU

end RiscvSoc
