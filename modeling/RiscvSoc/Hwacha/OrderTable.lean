import RiscvSoc.Hwacha.Sequencer

/-!
# The order table

For each slot of the sequencer the order table says on which of the four memory units the operation
in it waits. When an operation is issued, the entries of its slots are written and the units it uses
itself are taken out of every row, from a list of slots and units for each type of operation. The
list for a vector load or store names one slot more than the operation has, and an address unit it
does not use, so the row of the operation in that slot is overwritten.
-/

namespace RiscvSoc

namespace Hwacha

/-- The memory units, as the order table counts them. -/
inductive Vfu
  | vgu
  | vcu
  | vlu
  | vsu
  deriving DecidableEq

/-- The memory units of a slot. -/
def ActiveFlags.uses (a : ActiveFlags) : Vfu → Bool
  | .vgu => a.vgu
  | .vcu => a.vcu
  | .vlu => a.vlu
  | .vsu => a.vsu

/-- `tbl`. -/
abbrev BuildOrderTable : Type := BitVec 3 → Vfu → Bool

namespace BuildOrderTable

variable (tbl : BuildOrderTable)

/-- `mark` of a slot. -/
def mark (slot : BitVec 3) : BuildOrderTable := fun k u => if k = slot then true else tbl k u

/-- One pair of `mark`: the column is cleared, and the row becomes what is left of `dep`. -/
def markDep (x : BuildOrderTable × (Vfu → Bool)) (slot : BitVec 3) (vfu : Vfu) :
    BuildOrderTable × (Vfu → Bool) :=
  let dep := fun u => if u = vfu then false else x.2 u
  (fun k u => if k = slot then dep u else if u = vfu then false else x.1 k u, dep)

/-- `mark` of pairs of slots and units. -/
def markDeps (deps : List (BitVec 3 × Vfu)) : BuildOrderTable :=
  (deps.foldl (fun x d => markDep x d.1 d.2) (tbl, fun _ => true)).1

variable (deps : List (BitVec 3 × Vfu))

theorem foldl_markDep (x : BuildOrderTable × (Vfu → Bool))
    (hdep : ∀ k u, x.2 u = false → x.1 k u = false) (k : BitVec 3) (u : Vfu) :
    (deps.foldl (fun x d => markDep x d.1 d.2) x).1 k u =
      if u ∈ deps.map Prod.snd then false
      else if k ∈ deps.map Prod.fst then x.2 u else x.1 k u := by
  induction deps generalizing x with
  | nil => rfl
  | cons d deps ih =>
    rw [List.foldl_cons, ih]
    · by_cases hu : u = d.2
      · subst hu
        simp [markDep]
      · by_cases hk : k = d.1 <;>
          simp only [markDep, List.map_cons, List.mem_cons, hu, hk, false_or, true_or, if_true,
            if_false, ite_self]
    · intro k u h
      rw [markDep] at h ⊢
      dsimp only at h ⊢
      split
      · exact h
      · split at h
        · rename_i hu
          rw [if_pos hu]
        · rename_i hu
          rw [if_neg hu]
          exact hdep k u h

/-- **The last assignments.** The columns of all units that are named are cleared, and the rows of
all slots depend on every other unit. -/
theorem markDeps_eq (k : BitVec 3) (u : Vfu) :
    tbl.markDeps deps k u = if u ∈ deps.map Prod.snd then false
      else if k ∈ deps.map Prod.fst then true else tbl k u :=
  foldl_markDep deps (tbl, fun _ => true) (fun _ _ h => by cases h) k u

end BuildOrderTable

namespace OpKind

/-- The pairs an operation is marked with, a slot being given by how far ahead it is. An operation
without a memory unit has none. -/
def marks : OpKind → List (ℕ × Vfu)
  | .amo => [(1, .vgu), (2, .vcu), (2, .vsu), (3, .vlu)]
  | .utld => [(1, .vgu), (2, .vcu), (3, .vlu)]
  | .utst => [(1, .vgu), (2, .vcu), (2, .vsu)]
  | .vld => [(1, .vgu), (2, .vcu), (3, .vlu)]
  | .vst => [(1, .vgu), (2, .vcu), (2, .vsu)]
  | .viu | .vau0 | .vau1 _ | .vau2 _ => []

/-- The memory units an operation uses, in any of its slots. -/
def uses (kind : OpKind) (u : Vfu) : Bool := kind.parts.any fun part => part.active.uses u

end OpKind

namespace Sequencer

variable (cfg : HwachaConfig) (s : Sequencer)

/-- The slot that is `incr` ahead. -/
def slotAt (incr : ℕ) : BitVec 3 := ptrIncr s.ptr incr cfg.bcnt

/-- The order table after an operation of some type is issued. -/
def orderNext (tbl : BuildOrderTable) (kind : OpKind) : BuildOrderTable :=
  match kind with
  | .viu | .vau0 | .vau1 _ | .vau2 _ => tbl.mark (s.slotAt cfg 1)
  | .amo | .utld | .utst | .vld | .vst =>
    tbl.markDeps (kind.marks.map fun d => (s.slotAt cfg d.1, d.2))

/-- The operation has slot `k`. -/
def Occupies (kind : OpKind) (k : BitVec 3) : Prop :=
  ∃ part ∈ kind.parts, s.slotAt cfg part.incr = k

/-- The table says what it should: an operation does not wait for a unit of its own, and nobody
else's row changes but for those units. -/
structure Describes (old new : BuildOrderTable) (kind : OpKind) : Prop where
  own : ∀ k, s.Occupies cfg kind k → ∀ u, kind.uses u = true → new k u = false
  other : ∀ k, ¬s.Occupies cfg kind k → ∀ u,
    new k u = if kind.uses u = true then false else old k u

/-- Nobody else waits for the address unit, and a vector load finds a row that waits for stores in
the third slot, a vector store one that waits for loads in the second. -/
def RowsAgree (tbl : BuildOrderTable) (kind : OpKind) : Prop :=
  ∀ k, ¬s.Occupies cfg kind k → tbl k .vgu = false ∧
    (kind = .vld → k = s.slotAt cfg 3 → tbl k .vsu = true) ∧
    (kind = .vst → k = s.slotAt cfg 2 → tbl k .vlu = true)

variable {cfg s}

variable {tbl : BuildOrderTable} {kind : OpKind}

theorem orderNext_of_marks (hmarks : kind.marks ≠ [])
    (k : BitVec 3) (u : Vfu) : s.orderNext cfg tbl kind k u =
      if u ∈ kind.marks.map Prod.snd then false
      else if ∃ d ∈ kind.marks, s.slotAt cfg d.1 = k then true else tbl k u := by
  have hdeps := tbl.markDeps_eq (kind.marks.map fun d => (s.slotAt cfg d.1, d.2)) k u
  simp only [List.map_map, List.mem_map, Function.comp] at hdeps
  cases kind
  case viu | vau0 | vau1 | vau2 => exact absurd rfl hmarks
  all_goals
    refine hdeps.trans ?_
    simp only [List.mem_map]

theorem describes_of_marks (hmarks : kind.marks ≠ [])
    (hunits : ∀ u, u ∈ kind.marks.map Prod.snd ↔ kind.uses u = true)
    (hslots : ∀ d ∈ kind.marks, d.1 ∈ kind.parts.map IssuePart.incr) :
    s.Describes cfg tbl (s.orderNext cfg tbl kind) kind := by
  refine ⟨?_, ?_⟩
  · intro k _ u hu
    rw [orderNext_of_marks hmarks, if_pos ((hunits u).mpr hu)]
  · intro k hk u
    have hnot : ¬∃ d ∈ kind.marks, s.slotAt cfg d.1 = k := by
      rintro ⟨d, hd, hslot⟩
      obtain ⟨part, hpart, hincr⟩ := List.mem_map.mp (hslots d hd)
      exact hk ⟨part, hpart, hincr ▸ hslot⟩
    rw [orderNext_of_marks hmarks, if_neg hnot]
    exact if_congr (hunits u) rfl rfl

theorem describes_of_alu {tbl new : BuildOrderTable}
    (huses : ∀ u, kind.uses u = false) (hslot : 1 ∈ kind.parts.map IssuePart.incr)
    (hnew : new = tbl.mark (s.slotAt cfg 1)) : s.Describes cfg tbl new kind := by
  refine ⟨?_, ?_⟩
  · intro k _ u hu
    rw [huses] at hu
    cases hu
  · intro k hk u
    have hne : k ≠ s.slotAt cfg 1 := by
      rintro rfl
      obtain ⟨part, hpart, hincr⟩ := List.mem_map.mp hslot
      exact hk ⟨part, hpart, by rw [hincr]⟩
    rw [hnew, huses, BuildOrderTable.mark, if_neg hne, if_neg (by simp)]

/-- An operation is marked with the address unit and with slot `n`, which it does not use: it is
marked with every unit but `w`. -/
theorem describes_iff_of_extra {n : ℕ} {w : Vfu} (hmarks : kind.marks ≠ [])
    (hunits : ∀ u, u ∈ kind.marks.map Prod.snd ↔ u ≠ w)
    (huses : ∀ u, kind.uses u = true ↔ u ≠ w ∧ u ≠ .vgu) (hw : w ≠ .vgu)
    (hslots : ∀ d ∈ kind.marks, d.1 = n ∨ d.1 ∈ kind.parts.map IssuePart.incr)
    (hextra : n ∈ kind.marks.map Prod.fst) :
    s.Describes cfg tbl (s.orderNext cfg tbl kind) kind ↔
      ∀ k, ¬s.Occupies cfg kind k → tbl k .vgu = false ∧ (k = s.slotAt cfg n → tbl k w = true) := by
  have hnext := @orderNext_of_marks cfg s tbl kind hmarks
  have hslot {k : BitVec 3} (hk : ¬s.Occupies cfg kind k) :
      (∃ d ∈ kind.marks, s.slotAt cfg d.1 = k) ↔ k = s.slotAt cfg n := by
    constructor
    · rintro ⟨d, hd, rfl⟩
      rcases hslots d hd with hn | hpart
      · rw [hn]
      · obtain ⟨part, hpart, hincr⟩ := List.mem_map.mp hpart
        exact (hk ⟨part, hpart, by rw [hincr]⟩).elim
    · rintro rfl
      obtain ⟨d, hd, hn⟩ := List.mem_map.mp hextra
      exact ⟨d, hd, by rw [hn]⟩
  constructor
  · intro h k hk
    refine ⟨?_, ?_⟩
    · have hvgu := h.other k hk .vgu
      rw [hnext, if_pos ((hunits _).mpr hw.symm), if_neg fun hu => ((huses _).mp hu).2 rfl] at hvgu
      exact hvgu.symm
    · rintro rfl
      have hrow := h.other _ hk w
      rw [hnext, if_neg fun hu => (hunits _).mp hu rfl, if_pos ((hslot hk).mpr rfl),
        if_neg fun hu => ((huses _).mp hu).1 rfl] at hrow
      exact hrow.symm
  · intro h
    refine ⟨?_, ?_⟩
    · intro k _ u hu
      rw [hnext, if_pos ((hunits u).mpr ((huses u).mp hu).1)]
    · intro k hk u
      obtain ⟨hvgu, hrow⟩ := h k hk
      rw [hnext]
      by_cases huw : u = w
      · subst huw
        rw [if_neg fun hu => (hunits _).mp hu rfl, if_neg fun hu => ((huses _).mp hu).1 rfl]
        split
        · rename_i hd
          exact (hrow ((hslot hk).mp hd)).symm
        · rfl
      · rw [if_pos ((hunits u).mpr huw)]
        by_cases hug : u = .vgu
        · subst hug
          rw [if_neg fun hu => ((huses _).mp hu).2 rfl, hvgu]
        · rw [if_pos ((huses u).mpr ⟨huw, hug⟩)]

/-- A vector load is marked like one with an address unit. -/
theorem describes_vld_iff :
    s.Describes cfg tbl (s.orderNext cfg tbl .vld) .vld ↔ s.RowsAgree cfg tbl .vld := by
  rw [describes_iff_of_extra (n := 3) (w := .vsu) (by decide) ?_ ?_ (by decide) (by decide)
    (by decide)]
  · simp [RowsAgree]
  · rintro (_ | _ | _ | _) <;> decide
  · rintro (_ | _ | _ | _) <;> decide

theorem describes_vst_iff :
    s.Describes cfg tbl (s.orderNext cfg tbl .vst) .vst ↔ s.RowsAgree cfg tbl .vst := by
  rw [describes_iff_of_extra (n := 2) (w := .vlu) (by decide) ?_ ?_ (by decide) (by decide)
    (by decide)]
  · simp [RowsAgree]
  · rintro (_ | _ | _ | _) <;> decide
  · rintro (_ | _ | _ | _) <;> decide

/-- **When the order table is right.** After a vector load or store it is only by chance. -/
theorem describes_iff (cfg : HwachaConfig) (s : Sequencer) (tbl : BuildOrderTable)
    (kind : OpKind) : s.Describes cfg tbl (s.orderNext cfg tbl kind) kind ↔
      (kind ≠ .vld ∧ kind ≠ .vst) ∨ s.RowsAgree cfg tbl kind := by
  cases kind with
  | vld =>
    rw [describes_vld_iff]
    exact (or_iff_right fun h => h.1 rfl).symm
  | vst =>
    rw [describes_vst_iff]
    exact (or_iff_right fun h => h.2 rfl).symm
  | viu | vau0 =>
    refine iff_of_true (describes_of_alu ?_ (by decide) rfl) (.inl (by decide))
    rintro (_ | _ | _ | _) <;> rfl
  | vau1 sel | vau2 sel =>
    refine iff_of_true (describes_of_alu ?_ ?_ rfl) (.inl ⟨nofun, nofun⟩)
    · cases sel <;> rintro (_ | _ | _ | _) <;> rfl
    · cases sel <;> decide
  | amo | utld | utst =>
    refine iff_of_true (describes_of_marks (by decide) ?_ (by decide)) (.inl (by decide))
    rintro (_ | _ | _ | _) <;> decide

/-- A vector load issued after reset: the row of the third slot comes to depend on stores. -/
theorem not_describes_vld : ¬(⟨0, fun _ => ⟨false, 0, false, .none⟩⟩ : Sequencer).Describes
    ⟨8, .double⟩ (fun _ _ => false)
    ((⟨0, fun _ => ⟨false, 0, false, .none⟩⟩ : Sequencer).orderNext ⟨8, .double⟩
      (fun _ _ => false) .vld) .vld := by
  intro h
  have hfree : ¬(⟨0, fun _ => ⟨false, 0, false, .none⟩⟩ : Sequencer).Occupies ⟨8, .double⟩
      .vld 3 := by
    rintro ⟨part, hpart, hslot⟩
    revert part
    decide
  exact absurd (h.other 3 hfree .vsu) (by decide)

end Sequencer

end Hwacha

end RiscvSoc
