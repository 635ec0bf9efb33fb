import RiscvSoc.Lib.Machine

/-!
# A circuit that counts through a loop

In the cycles of a run a circuit emits items. A counted loop has a position: at position `k` a cycle
either waits or makes the turn number `k`, which emits what belongs to `k`; behind the last turn a
cycle leaves the loop. When turns keep being possible the loop comes to its end, and by then it has
emitted what belongs to its turns, in order, however long it waited in between.

Nothing here knows about any particular circuit.
-/

namespace RiscvSoc

variable {β : Type}

/-- What is emitted in `n` cycles from cycle `t` on. -/
def emitted (out : ℕ → List β) (t : ℕ) : ℕ → List β
  | 0 => []
  | n + 1 => out t ++ emitted out (t + 1) n

/-- Let `pos k t` say that in cycle `t` the loop is at position `k`, of `N`, and `go t` that a turn
is possible then. -/
structure CountedLoop (pos : ℕ → ℕ → Prop) (go : ℕ → Prop) (out : ℕ → List β) (N : ℕ)
    (turn : ℕ → List β) (done : ℕ → Prop) : Prop where
  wait : ∀ {k t}, pos k t → k < N → ¬go t → pos k (t + 1) ∧ out t = []
  go : ∀ {k t}, pos k t → k < N → go t → pos (k + 1) (t + 1) ∧ out t = turn k
  leave : ∀ {k t}, pos k t → N ≤ k → done (t + 1) ∧ out t = []
  busy : ∀ {k t}, pos k t → ¬done t

namespace CountedLoop

variable {pos : ℕ → ℕ → Prop} {go : ℕ → Prop} {out : ℕ → List β} {N : ℕ} {turn : ℕ → List β}
  {done : ℕ → Prop} {k t : ℕ}

theorem prepend {n : ℕ} {l : List β} (hbusy : ¬done t) (hend : done (t + 1 + n))
    (hfirst : ∀ m < n, ¬done (t + 1 + m)) (hout : emitted out (t + 1) n = l) :
    ∃ n > 0, done (t + n) ∧ (∀ m < n, ¬done (t + m)) ∧ emitted out t n = out t ++ l := by
  refine ⟨n + 1, Nat.succ_pos n, ?_, ?_, ?_⟩
  · rwa [Nat.add_comm n 1, ← Nat.add_assoc]
  · intro m hm
    cases m with
    | zero => exact hbusy
    | succ m =>
      rw [Nat.add_comm m 1, ← Nat.add_assoc]
      exact hfirst m (Nat.lt_of_succ_lt_succ hm)
  · rw [emitted, hout]

/-- The loop ends, and then it has emitted what belongs to the turns from its position on. -/
theorem finishes (h : CountedLoop pos go out N turn done) (hgo : ∀ t, ∃ u ≥ t, go u)
    (hpos : pos k t) : ∃ n > 0, done (t + n) ∧ (∀ m < n, ¬done (t + m)) ∧
      emitted out t n = (List.range' k (N - k)).flatMap turn := by
  -- The outer induction is on the turns that are left, the inner one on the cycles until the next.
  induction hleft : N - k generalizing k t with
  | zero =>
    obtain ⟨hdone, hout⟩ := h.leave hpos (by omega)
    have hrest : emitted out (t + 1) 0 = [] := rfl
    obtain ⟨n, hn, hend, hfirst, hemit⟩ :=
      prepend (h.busy hpos) hdone (fun m hm => absurd hm (Nat.not_lt_zero m)) hrest
    exact ⟨n, hn, hend, hfirst, by rw [hemit, hout]; rfl⟩
  | succ left ih =>
    have hk : k < N := by omega
    have hturn : ∀ {t}, pos k t → go t → ∃ n > 0, done (t + n) ∧ (∀ m < n, ¬done (t + m)) ∧
        emitted out t n = (List.range' k (left + 1)).flatMap turn := by
      intro t hpos hgot
      obtain ⟨hnext, hout⟩ := h.go hpos hk hgot
      obtain ⟨n, -, hend, hfirst, hemit⟩ := ih hnext (by omega)
      rw [List.range'_succ, List.flatMap_cons, ← hout]
      exact prepend (h.busy hpos) hend hfirst hemit
    obtain ⟨u, hu, hgou⟩ := hgo t
    induction hwait : u - t generalizing t with
    | zero => exact hturn hpos (Nat.le_antisymm (Nat.le_of_sub_eq_zero hwait) hu ▸ hgou)
    | succ w ihw =>
      by_cases hgot : go t
      · exact hturn hpos hgot
      · obtain ⟨hnext, hout⟩ := h.wait hpos hk hgot
        obtain ⟨n, -, hend, hfirst, hemit⟩ := ihw hnext (by omega) (by omega)
        rw [← List.nil_append (List.flatMap _ _), ← hout]
        exact prepend (h.busy hpos) hend hfirst hemit

end CountedLoop

end RiscvSoc
