import Mathlib.Algebra.Group.Fin.Basic
import Mathlib.Data.List.FinRange
import Mathlib.Data.List.Pairwise
import Mathlib.Tactic.Linarith

/-!
# A circular buffer of rows

A buffer of `R` rows with `n` entries in each. It is filled a row at a time and emptied a row at a
time, and some entries of a row may stay vacant. Counted from the row at the head, every entry has a
place, and the entries that are in use make up one list.

The rows are numbered modulo `R`, so the head may move past the last row; what matters is that a row
that is left behind has nothing in it, and that a row is filled only when everything in use lies
before it.
-/

namespace RiscvSoc

section Split

variable {α : Type}

/-- A list splits at a condition that, once it fails, fails from there on. -/
theorem filter_append_filter_neg {p : α → Bool} {l : List α}
    (h : l.Pairwise fun x y => p y = true → p x = true) :
    l.filter p ++ l.filter (fun x => !p x) = l := by
  induction l with
  | nil => rfl
  | cons a l ih =>
    obtain ⟨ha, hl⟩ := List.pairwise_cons.mp h
    cases hp : p a with
    | true => rw [List.filter_cons_of_pos hp, List.filter_cons_of_neg (by simp [hp]),
        List.cons_append, ih hl]
    | false =>
      have hnone : l.filter p = [] := List.filter_eq_nil_iff.mpr fun b hb hpb => by
        rw [ha b hb hpb] at hp
        cases hp
      rw [List.filter_cons_of_neg (by simp [hp]), List.filter_cons_of_pos (by simp [hp]), hnone,
        List.nil_append]
      have hrest := ih hl
      rw [hnone, List.nil_append] at hrest
      rw [hrest]

/-- Two strict orders a list is sorted by agree on it, if one of them leaves nothing incomparable.
-/
theorem lt_of_pairwise {β γ : Type} [LinearOrder β] [LinearOrder γ] {f : α → β} {g : α → γ}
    {l : List α}
    (hf : l.Pairwise fun x y => f x < f y) (hg : l.Pairwise fun x y => g x < g y) {x y : α}
    (hx : x ∈ l) (hy : y ∈ l) : f x < f y ↔ g x < g y := by
  have hboth : l.Pairwise fun x y => (f x < f y ↔ g x < g y) ∧ (f y < f x ↔ g y < g x) :=
    (hf.and hg).imp fun ⟨h1, h2⟩ => ⟨iff_of_true h1 h2, iff_of_false h1.not_gt h2.not_gt⟩
  have : Std.Symm fun x y => (f x < f y ↔ g x < g y) ∧ (f y < f x ↔ g y < g x) :=
    ⟨fun _ _ h => ⟨h.2, h.1⟩⟩
  by_cases hxy : x = y
  · subst hxy
    simp
  · exact (hboth.forall hx hy hxy).1

end Split

variable {R n : ℕ}

/-- The entries of row `r`. -/
def rowEntries (n : ℕ) (r : Fin R) : List (Fin R × Fin n) := (List.finRange n).map (Prod.mk r)

/-- How many rows row `r` is after row `h`. -/
def rowPlace (h r : Fin R) : ℕ := (r - h).val

/-- Where an entry stands when the head is at row `h`. -/
def place (h : Fin R) (x : Fin R × Fin n) : ℕ := rowPlace h x.1 * n + x.2

theorem mem_rowEntries {r : Fin R} {x : Fin R × Fin n} : x ∈ rowEntries n r ↔ x.1 = r := by
  rw [rowEntries, List.mem_map]
  exact ⟨fun ⟨w, _, hw⟩ => hw ▸ rfl, fun h => ⟨x.2, List.mem_finRange _, by rw [← h]⟩⟩

theorem rowPlace_lt (h r : Fin R) : rowPlace h r < R := (r - h).isLt

variable {h : Fin R} {x y : Fin R × Fin n}

theorem place_lt_of_rowPlace_lt
    (hlt : rowPlace h x.1 < rowPlace h y.1) : place h x < place h y := by
  have hx := x.2.isLt
  have hmul : (rowPlace h x.1 + 1) * n ≤ rowPlace h y.1 * n := Nat.mul_le_mul_right n hlt
  rw [place, place]
  linarith [Nat.succ_mul (rowPlace h x.1) n]

theorem place_lt_of_row_eq (heq : x.1 = y.1) (hlt : x.2 < y.2) :
    place h x < place h y := by
  rw [place, place, heq]
  exact Nat.add_lt_add_left hlt _

theorem rowPlace_le_of_place_lt (hlt : place h x < place h y) :
    rowPlace h x.1 ≤ rowPlace h y.1 := by
  by_contra hgt
  exact (place_lt_of_rowPlace_lt (not_le.mp hgt)).not_gt hlt

/-- In one row the entries stand in the order of their numbers. -/
theorem lt_of_place_lt (hlt : place h x < place h y) (heq : x.1 = y.1) : x.2 < y.2 := by
  rw [place, place, heq] at hlt
  exact Nat.lt_of_add_lt_add_left hlt

variable [NeZero R]

/-- All entries, from row `h` on. -/
def ring (n : ℕ) (h : Fin R) : List (Fin R × Fin n) :=
  (List.range R).flatMap fun i => rowEntries n (h + Fin.ofNat R i)

/-- The entries in use. -/
def occupied (val : Fin R × Fin n → Bool) (h : Fin R) : List (Fin R × Fin n) :=
  (ring n h).filter val

/-! ### Rows -/

@[simp]
theorem rowPlace_self (h : Fin R) : rowPlace h h = 0 := by
  rw [rowPlace, sub_self]
  rfl

theorem rowPlace_ofNat (h : Fin R) {i : ℕ} (hi : i < R) : rowPlace h (h + Fin.ofNat R i) = i := by
  rw [rowPlace, add_sub_cancel_left]
  exact Nat.mod_eq_of_lt hi

theorem add_rowPlace (h r : Fin R) : h + Fin.ofNat R (rowPlace h r) = r := by
  rw [rowPlace, Fin.ofNat_val_eq_self, add_sub_cancel]

theorem rowPlace_inj {h r r' : Fin R} (heq : rowPlace h r = rowPlace h r') : r = r' := by
  rw [← add_rowPlace h r, heq, add_rowPlace]

variable {h r : Fin R}

theorem rowPlace_eq_zero : rowPlace h r = 0 ↔ r = h :=
  ⟨fun hz => rowPlace_inj (hz.trans (rowPlace_self h).symm), fun heq => heq ▸ rowPlace_self r⟩

theorem ofNat_succ (i : ℕ) : Fin.ofNat R (i + 1) = Fin.ofNat R i + 1 := by
  ext
  simp [Fin.val_add, Fin.ofNat]

/-- The row after the last one in use is the next one to fill. -/
theorem rowPlace_succ (hlt : rowPlace h r + 1 < R) :
    rowPlace h (r + 1) = rowPlace h r + 1 := by
  conv_lhs => rw [← add_rowPlace h r, add_assoc, ← ofNat_succ]
  exact rowPlace_ofNat h hlt

theorem rowPlace_succ_lt (hne : r + 1 ≠ h) : rowPlace h r + 1 < R := by
  refine lt_of_le_of_ne (rowPlace_lt h r) fun heq => hne ?_
  have hzero : Fin.ofNat R R = 0 := by
    ext
    simp [Fin.ofNat]
  rw [← add_rowPlace h r, add_assoc, ← ofNat_succ, heq, hzero, add_zero]

theorem rowPlace_pred (hne : r ≠ h) : rowPlace h (r - 1) = rowPlace h r - 1 := by
  have hpos : 0 < rowPlace h r := Nat.pos_of_ne_zero fun hz => hne (rowPlace_eq_zero.mp hz)
  have hlt := rowPlace_lt h r
  have hr : r = h + Fin.ofNat R (rowPlace h r - 1) + 1 := by
    rw [add_assoc, ← ofNat_succ, Nat.sub_add_cancel hpos, add_rowPlace]
  conv_lhs => rw [hr, add_sub_cancel_right]
  exact rowPlace_ofNat h (by omega)

/-- Seen from the next head every row but the old one is one nearer. -/
theorem rowPlace_head_succ (hne : r ≠ h) :
    rowPlace (h + 1) r = rowPlace h r - 1 := by
  rw [← rowPlace_pred hne, rowPlace, rowPlace]
  congr 1
  rw [add_comm h 1, ← sub_sub]

theorem rowPlace_head_succ_self (h : Fin R) : rowPlace (h + 1) h = R - 1 := by
  have hr : h = h + 1 + Fin.ofNat R (R - 1) := by
    have hzero : Fin.ofNat R (R - 1 + 1) = 0 := by
      rw [Nat.sub_add_cancel (NeZero.pos R)]
      ext
      simp [Fin.ofNat]
    rw [add_assoc, add_comm 1, ← ofNat_succ, hzero, add_zero]
  conv_lhs => rw [hr]
  have hpos := NeZero.pos R
  have hplace := rowPlace_ofNat (h + 1) (i := R - 1) (by omega)
  rwa [← hr] at hplace ⊢

/-! ### The order of the entries -/

theorem mem_ring (h : Fin R) (x : Fin R × Fin n) : x ∈ ring n h :=
  List.mem_flatMap.mpr ⟨rowPlace h x.1, List.mem_range.mpr (rowPlace_lt _ _),
    mem_rowEntries.mpr (add_rowPlace h x.1).symm⟩

theorem pairwise_ring (h : Fin R) : (ring n h).Pairwise fun x y => place h x < place h y := by
  rw [ring, List.pairwise_flatMap]
  refine ⟨fun i _ => ?_, ?_⟩
  · rw [rowEntries, List.pairwise_map]
    refine (List.pairwise_lt_finRange n).imp ?_
    intro v w hlt
    exact place_lt_of_row_eq rfl hlt
  · refine List.pairwise_lt_range.imp_of_mem fun hi hj hlt x hx y hy => ?_
    rw [mem_rowEntries] at hx hy
    refine place_lt_of_rowPlace_lt ?_
    rwa [hx, hy, rowPlace_ofNat h (List.mem_range.mp hi), rowPlace_ofNat h (List.mem_range.mp hj)]

/-! ### The entries in use -/

variable {val val' : Fin R × Fin n → Bool} {h : Fin R}

theorem mem_occupied {x : Fin R × Fin n} : x ∈ occupied val h ↔ val x = true := by
  rw [occupied, List.mem_filter, and_iff_right (mem_ring h x)]

theorem pairwise_occupied (val : Fin R × Fin n → Bool) (h : Fin R) :
    (occupied val h).Pairwise fun x y => place h x < place h y :=
  (pairwise_ring h).filter val

/-- **Emptying entries filters the list.** -/
theorem occupied_filter {keep : Fin R × Fin n → Bool} (hval : ∀ x, val' x = (val x && keep x)) :
    occupied val' h = (occupied val h).filter keep := by
  rw [occupied, occupied, List.filter_filter]
  exact List.filter_congr fun x _ => (hval x).trans (Bool.and_comm _ _)

/-- **The head may move past an empty row.** -/
theorem occupied_succ (hrow : ∀ x : Fin R × Fin n, x.1 = h → val x = false) :
    occupied val (h + 1) = occupied val h := by
  have hempty : (rowEntries n h).filter val = [] :=
    List.filter_eq_nil_iff.mpr fun x hx => by simp [hrow x (mem_rowEntries.mp hx)]
  obtain ⟨m, rfl⟩ : ∃ m, R = m + 1 := ⟨R - 1, (Nat.sub_add_cancel (NeZero.pos R)).symm⟩
  have hlast : h + 1 + Fin.ofNat (m + 1) m = h := by
    rw [add_assoc, add_comm 1, ← ofNat_succ]
    have hzero : Fin.ofNat (m + 1) (m + 1) = 0 := by
      ext
      simp [Fin.ofNat]
    rw [hzero, add_zero]
  have hfirst : h + Fin.ofNat (m + 1) 0 = h := by
    ext
    simp [Fin.ofNat]
  rw [occupied, occupied, ring, ring, List.filter_flatMap, List.filter_flatMap]
  conv_lhs => rw [List.range_succ]
  conv_rhs => rw [List.range_succ_eq_map]
  rw [List.flatMap_append, List.flatMap_cons, List.flatMap_cons, hfirst, hempty, List.nil_append,
    List.flatMap_map, hlast, hempty, List.flatMap_nil, List.append_nil, List.append_nil]
  refine List.flatMap_congr fun i _ => ?_
  rw [ofNat_succ, add_assoc, add_comm 1]

/-- **Filling row `t` appends to the list**, if everything in use lies before it. -/
theorem occupied_fill (val val' keep : Fin R × Fin n → Bool) {h t : Fin R}
    (hval : ∀ x, val x = true → rowPlace h x.1 < rowPlace h t)
    (hval' : ∀ x, x.1 ≠ t → val' x = (val x && keep x)) :
    occupied val' h = (occupied val h).filter keep ++ (rowEntries n t).filter val' := by
  have hsplit : List.range R = List.range (rowPlace h t) ++
      (List.range (R - rowPlace h t)).map (rowPlace h t + ·) := by
    rw [← List.range_add, Nat.add_sub_cancel' (rowPlace_lt h t).le]
  obtain ⟨m, hm⟩ : ∃ m, R - rowPlace h t = m + 1 :=
    ⟨R - rowPlace h t - 1, by have := rowPlace_lt h t; omega⟩
  rw [hm, List.range_succ_eq_map, List.map_cons, List.map_map] at hsplit
  rw [occupied, occupied, List.filter_filter, ring, List.filter_flatMap, List.filter_flatMap,
    hsplit, List.flatMap_append, List.flatMap_append, List.flatMap_cons, List.flatMap_cons,
    Nat.add_zero, add_rowPlace]
  have hother : ∀ i ∈ List.range R, i ≠ rowPlace h t →
      (rowEntries n (h + Fin.ofNat R i)).filter val' =
        (rowEntries n (h + Fin.ofNat R i)).filter fun x => keep x && val x := by
    intro i hi hne
    refine List.filter_congr fun x hx => ?_
    rw [mem_rowEntries] at hx
    rw [hval' x, Bool.and_comm]
    rintro rfl
    rw [hx, rowPlace_ofNat h (List.mem_range.mp hi)] at hne
    exact hne rfl
  have hafter : ∀ i ∈ List.range R, rowPlace h t ≤ i →
      ((rowEntries n (h + Fin.ofNat R i)).filter fun x => keep x && val x) = [] := by
    intro i hi hle
    refine List.filter_eq_nil_iff.mpr fun x hx => ?_
    rw [mem_rowEntries] at hx
    intro hx'
    have hlt := hval x (Bool.and_eq_true_iff.mp hx').2
    rw [hx, rowPlace_ofNat h (List.mem_range.mp hi)] at hlt
    exact hlt.not_ge hle
  have hrow : ((rowEntries n t).filter fun x => keep x && val x) = [] := by
    have := hafter (rowPlace h t) (List.mem_range.mpr (rowPlace_lt h t)) le_rfl
    rwa [add_rowPlace] at this
  have hrest : ∀ i ∈ (List.range m).map ((rowPlace h t + ·) ∘ Nat.succ),
      i ∈ List.range R ∧ rowPlace h t < i := by
    intro i hi
    obtain ⟨k, hk, rfl⟩ := List.mem_map.mp hi
    rw [List.mem_range] at hk ⊢
    simp only [Function.comp_apply]
    omega
  have hnil : ∀ val'' : Fin R × Fin n → Bool,
      (∀ i ∈ (List.range m).map ((rowPlace h t + ·) ∘ Nat.succ),
        (rowEntries n (h + Fin.ofNat R i)).filter val'' = []) →
      (((List.range m).map ((rowPlace h t + ·) ∘ Nat.succ)).flatMap fun i =>
        (rowEntries n (h + Fin.ofNat R i)).filter val'') = [] := fun _ hall =>
    List.flatMap_eq_nil_iff.mpr hall
  rw [hrow, List.nil_append,
    hnil (fun x => keep x && val x) fun i hi => hafter i (hrest i hi).1 (hrest i hi).2.le,
    hnil val' fun i hi => (hother i (hrest i hi).1 (hrest i hi).2.ne').trans
      (hafter i (hrest i hi).1 (hrest i hi).2.le), List.append_nil, List.append_nil]
  congr 1
  refine List.flatMap_congr fun i hi => ?_
  rw [List.mem_range] at hi
  exact hother i (List.mem_range.mpr (hi.trans (rowPlace_lt h t))) hi.ne

theorem occupied_row (f : Fin R × Fin n → Bool) (h t : Fin R) :
    occupied (fun x => decide (x.1 = t) && f x) h = (rowEntries n t).filter f := by
  have hnone : occupied (fun _ : Fin R × Fin n => false) h = [] :=
    List.filter_eq_nil_iff.mpr fun _ _ => Bool.false_ne_true
  have hfill := occupied_fill (fun _ => false) (fun x => decide (x.1 = t) && f x) (fun _ => true)
    (h := h) (t := t) (fun _ hx => by cases hx) fun x hx => by simp [hx]
  rw [hfill, hnone, List.filter_nil, List.nil_append]
  refine List.filter_congr fun x hx => ?_
  rw [mem_rowEntries.mp hx, decide_eq_true rfl, Bool.true_and]

end RiscvSoc
