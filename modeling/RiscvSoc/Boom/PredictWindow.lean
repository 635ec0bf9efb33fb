import RiscvSoc.Boom.CoreOrder

/-!
# What a cycle leaves of the window

The window of the core loses micro-ops at its ends only: at the old end what commits, at the young
end what a mispredicted branch kills. And a mispredicted branch is then the youngest micro-op that
is left. Rollback is the exception; it empties the window before anything is dispatched again.
-/

namespace RiscvSoc

/-! ### Sorted lists -/

section Sorted

variable {α : Type} {f : α → ℕ} {l : List α}

/-- An element of a sorted list with nothing above it is the last one. -/
theorem exists_concat_of_sorted (h : l.Pairwise fun x y => f x < f y) {a : α} (ha : a ∈ l)
    (hmax : ∀ x ∈ l, f x ≤ f a) : ∃ l', l = l' ++ [a] := by
  obtain ⟨pre, post, rfl⟩ := List.append_of_mem ha
  cases post with
  | nil => exact ⟨pre, rfl⟩
  | cons b post =>
    have hlt := (List.pairwise_cons.mp (List.pairwise_append.mp h).2.1).1 b List.mem_cons_self
    exact absurd (hmax b (by simp)) hlt.not_ge

/-- Two elements of a sorted list with nothing between them are neighbours. -/
theorem exists_neighbours_of_sorted (h : l.Pairwise fun x y => f x < f y) {a b : α} (ha : a ∈ l)
    (hb : b ∈ l) (hab : f a < f b) (hnone : ∀ x ∈ l, f a < f x → f b ≤ f x) :
    ∃ pre post, l = pre ++ a :: b :: post := by
  obtain ⟨pre, post, rfl⟩ := List.append_of_mem ha
  obtain ⟨-, hpost, hpre⟩ := List.pairwise_append.mp h
  obtain ⟨hgt, hsorted⟩ := List.pairwise_cons.mp hpost
  have hbpost : b ∈ post := by
    rcases List.mem_append.mp hb with hmem | hmem
    · exact absurd (hpre b hmem a List.mem_cons_self) hab.not_gt
    · rcases List.mem_cons.mp hmem with rfl | hmem
      · exact absurd hab (lt_irrefl _)
      · exact hmem
  cases post with
  | nil => cases hbpost
  | cons x post =>
    rcases List.mem_cons.mp hbpost with rfl | hmem
    · exact ⟨pre, post, rfl⟩
    · have hle := hnone x (by simp) (hgt x List.mem_cons_self)
      exact absurd ((List.pairwise_cons.mp hsorted).1 b hmem) hle.not_gt

/-- What is above an element of a sorted list is what comes after it. -/
theorem filter_gt_of_sorted {pre post : List α} {a : α}
    (h : (pre ++ a :: post).Pairwise fun x y => f x < f y) :
    ((pre ++ a :: post).filter fun x => decide (f a < f x)) = post := by
  obtain ⟨-, hpost, hpre⟩ := List.pairwise_append.mp h
  obtain ⟨hgt, -⟩ := List.pairwise_cons.mp hpost
  have hnone : (pre.filter fun x => decide (f a < f x)) = [] :=
    List.filter_eq_nil_iff.mpr fun x hx => by
      rw [decide_eq_true_eq]
      exact (hpre x hx a List.mem_cons_self).not_gt
  have hall : (post.filter fun x => decide (f a < f x)) = post :=
    List.filter_eq_self.mpr fun x hx => decide_eq_true (hgt x hx)
  rw [List.filter_append, hnone, List.filter_cons_of_neg (by simp), hall, List.nil_append]

end Sorted

variable {c : BOOMConf}

namespace Core

variable {s : Core c} {i : CoreInput c}

/-- The micro-ops that are left of the window. -/
def left (s : Core c) (i : CoreInput c) : List (RobUop c) :=
  s.rob.window.filter fun u => !s.rob.removes (s.robInput i) (robSlot u.robIdx)

namespace Ordered

theorem mem_left {u : RobUop c} : u ∈ s.left i ↔
    u ∈ s.rob.window ∧ s.rob.removes (s.robInput i) (robSlot u.robIdx) = false := by
  rw [left, List.mem_filter, Bool.not_eq_true']

theorem rollsBack_eq_false (hstate : s.rob.state ≠ .rollback) (x : RobSlot c) :
    s.rob.rollsBack x = false := by
  rw [← Bool.not_eq_true, Rob.rollsBack_eq_true]
  exact fun h => hstate h.1

/-- **What is left is a part of the window without a gap.** Nothing is lost at the young end unless
a branch is mispredicted. -/
theorem window_split (ho : s.Ordered) (hstate : s.rob.state ≠ .rollback) :
    ∃ old young, s.rob.window = old ++ s.left i ++ young ∧
      (s.mispredicts = false → young = []) := by
  have hcom := filter_append_filter_neg (p := s.commits) (l := s.rob.window)
    (ho.sorted.imp_of_mem fun hu hv hlt hcom => ho.commits_of_seq_le hv hu hlt.le hcom)
  let rest := s.rob.window.filter fun u => !s.commits u
  have hmem : ∀ u ∈ rest, u ∈ s.rob.window ∧ s.commits u = false := by
    intro u hu
    obtain ⟨hu, hno⟩ := List.mem_filter.mp hu
    exact ⟨hu, by simpa using hno⟩
  have hkill := filter_append_filter_neg
    (p := fun u => !s.rob.removes (s.robInput i) (robSlot u.robIdx)) (l := rest)
    ((ho.sorted.filter _).imp_of_mem fun {u v} hu hv hlt hkeep => by
      rw [Bool.not_eq_true'] at hkeep ⊢
      obtain ⟨-, hle, -⟩ := (ho.removes_eq_false (hmem v hv).1).mp hkeep
      exact (ho.removes_eq_false (hmem u hu).1).mpr
        ⟨(hmem u hu).2, fun r hr => hlt.le.trans (hle r hr), rollsBack_eq_false hstate _⟩)
  have hleft : (rest.filter fun u => !s.rob.removes (s.robInput i) (robSlot u.robIdx)) =
      s.left i := by
    rw [left, List.filter_filter]
    refine List.filter_congr fun u hu => ?_
    cases hrem : s.rob.removes (s.robInput i) (robSlot u.robIdx) with
    | true => rfl
    | false =>
      rw [((ho.removes_eq_false hu).mp hrem).1]
      rfl
  rw [hleft] at hkill
  refine ⟨s.rob.window.filter s.commits,
    rest.filter fun u => !!s.rob.removes (s.robInput i) (robSlot u.robIdx), ?_, fun hmis => ?_⟩
  · rw [List.append_assoc, hkill, hcom]
  · refine List.filter_eq_nil_iff.mpr fun u hu => ?_
    rw [Bool.not_not, Bool.not_eq_true]
    refine (ho.removes_eq_false (hmem u hu).1).mpr
      ⟨(hmem u hu).2, fun r hr => ?_, rollsBack_eq_false hstate _⟩
    rw [mispredicts_eq_true.mpr ⟨r, hr⟩] at hmis
    cases hmis

/-- **The mispredicted branch is left, and it is the youngest.** -/
theorem youngest_of_mispredicted (ho : s.Ordered) (hstate : s.rob.state ≠ .rollback)
    {r : RobUop c} (hr : s.mispredicted r) : ∃ l, s.left i = l ++ [r] := by
  have hpend := mem_pending_of_brReg hr
  have hwin := ho.mem_window hpend
  have honly : ∀ r', s.mispredicted r' → r' = r := by
    intro r' hr'
    rw [mispredicted, show s.brReg = some (r, true) from hr] at hr'
    cases hr'
    rfl
  refine exists_concat_of_sorted (f := fun u => u.seq) (ho.sorted.filter _)
    (mem_left.mpr ⟨hwin, ?_⟩) fun u hu => ?_
  · refine (ho.removes_eq_false hwin).mpr
      ⟨ho.not_commits hpend, fun r' hr' => ?_, rollsBack_eq_false hstate _⟩
    rw [honly r' hr']
  · obtain ⟨hu, hrem⟩ := mem_left.mp hu
    exact ((ho.removes_eq_false hu).mp hrem).2.1 r hr

/-! ### Branches on their way -/

theorem mem_brs_next {b' : RobUop c} (hb : b' ∈ (s.next i).brs) :
    (∃ b ∈ s.brs, s.brFilter b = some b') ∨ b' ∈ s.newUops i := by
  rcases mem_pending_next.mp (mem_pending_of_brs hb) with h | h
  · exact .inl h
  · exact .inr (List.mem_filter.mp h).1

/-- A branch on its way was on its way before, or it is new. -/
theorem seq_of_brs_next {b' : RobUop c} (hb : b' ∈ (s.next i).brs) (hlt : b'.seq < s.count) :
    ∃ b ∈ s.brs, s.brFilter b = some b' ∧ b.seq = b'.seq := by
  rcases mem_brs_next hb with ⟨b, hmem, hf⟩ | hnew
  · refine ⟨b, hmem, hf, ?_⟩
    obtain ⟨-, -, rfl⟩ := brFilter_eq_some.mp hf
    rfl
  · exact absurd (seq_newUops hnew).1 hlt.not_ge

theorem seq_ne_of_brs (ho : s.Ordered) {r b : RobUop c} {m : Bool} (hr : s.brReg = some (r, m))
    (hb : b ∈ s.brs) : b.seq ≠ r.seq := by
  intro heq
  have hwin := ho.mem_window (mem_pending_of_brs hb)
  have hr' := ho.mem_window (mem_pending_of_brReg hr)
  exact ho.brTag_ne_of_brs hr hb (congrArg (·.brTag) (ho.eq_of_seq hwin hr' heq))

end Ordered

end Core

end RiscvSoc
