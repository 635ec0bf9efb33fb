import RiscvSoc.Lib.Arbiter

/-!
# A crossbar

`n` inputs, `n` outputs, and a round-robin arbiter at every output. A message says which output it
wants; the outputs serve different inputs at the same time, but an input has one message at most, so
it is served by one output at most.

Nothing here knows what the messages are; `dst` reads the number of the output off one. A message
that wants an output which does not exist stays at its input.
-/

namespace RiscvSoc

namespace Crossbar

open RRArbiter

variable {n : ℕ} {α : Type}

section Cycle

variable (dst : α → ℕ) (lastGrant : Fin n → Fin n) (inp : Fin n → Option α)
  (outReady : Fin n → Bool)

/-- The arbiter of output `d` sees input `j` if its message wants `d`. -/
def asks (d j : Fin n) : Bool := (inp j).any fun x => decide (dst x = d)

/-- `io.out(d)`. -/
def out (d : Fin n) : Option α := (chosen (lastGrant d) (asks dst inp d)).bind inp

/-- `io.in(j).ready`, when the bits of the input are `x`. -/
def inReady (j : Fin n) (x : α) : Bool :=
  decide (∃ d : Fin n, dst x = d ∧
    RRArbiter.inReady (lastGrant d) (asks dst inp d) (outReady d) j = true)

/-- The handshake at an input. -/
def taken (j : Fin n) : Bool := (inp j).any (inReady dst lastGrant inp outReady j)

/-- The arbiters in the next cycle. -/
def next (d : Fin n) : Fin n := RRArbiter.next (lastGrant d) (asks dst inp d) (outReady d)

/-- The input that output `d` serves. -/
def source (d : Fin n) : Option (Fin n) :=
  served (lastGrant d) (asks dst inp d) (outReady d)

/-- What leaves an input. -/
def left (j : Fin n) : List α := if taken dst lastGrant inp outReady j then (inp j).toList else []

/-- What an output hands over. -/
def arrived (d : Fin n) : List α := if outReady d then (out dst lastGrant inp d).toList else []

end Cycle

variable {dst : α → ℕ} {lastGrant : Fin n → Fin n} {inp : Fin n → Option α}
  {outReady : Fin n → Bool} {d j : Fin n}

theorem asks_eq_true : asks dst inp d j = true ↔ ∃ x, inp j = some x ∧ dst x = d := by
  rw [asks, Option.any_eq_true]
  simp

theorem exists_of_source (h : source dst lastGrant inp outReady d = some j) :
    ∃ x, inp j = some x ∧ dst x = d :=
  asks_eq_true.mp (valid_of_served h)

theorem arrived_of_source (h : source dst lastGrant inp outReady d = some j) :
    arrived dst lastGrant inp outReady d = (inp j).toList := by
  rw [source, served] at h
  rw [arrived, out]
  cases hr : outReady d with
  | false =>
    rw [hr] at h
    cases h
  | true =>
    rw [hr, if_pos rfl] at h
    rw [if_pos rfl, h, Option.bind_some]

theorem arrived_of_source_none (h : source dst lastGrant inp outReady d = none) :
    arrived dst lastGrant inp outReady d = [] := by
  rw [source, served] at h
  rw [arrived, out]
  cases hr : outReady d with
  | false => rfl
  | true =>
    rw [hr, if_pos rfl] at h
    rw [if_pos rfl, h]
    rfl

/-- A message goes through if and only if the output it wants serves it. -/
theorem taken_iff {x : α} (hx : inp j = some x) : taken dst lastGrant inp outReady j = true ↔
    ∃ d : Fin n, dst x = d ∧ source dst lastGrant inp outReady d = some j := by
  rw [taken, hx, Option.any_some, inReady, decide_eq_true_eq]
  refine exists_congr fun d => and_congr_right fun hd => ?_
  rw [source, ← fires_iff_served, fires, Bool.and_eq_true]
  exact (and_iff_right (asks_eq_true.mpr ⟨x, hx, hd⟩)).symm

/-- **What an input gives to an output is what the output takes from the input.** -/
theorem left_filter (d j : Fin n) :
    (left dst lastGrant inp outReady j).filter (fun x => dst x = d) =
      if source dst lastGrant inp outReady d = some j then (inp j).toList else [] := by
  rw [left]
  cases hx : inp j with
  | none => simp
  | some x =>
    by_cases hd : dst x = d
    · have htaken : taken dst lastGrant inp outReady j = true ↔
          source dst lastGrant inp outReady d = some j := by
        rw [taken_iff hx]
        constructor
        · rintro ⟨e, he, hs⟩
          have hed : e = d := Fin.val_injective (he.symm.trans hd)
          rwa [hed] at hs
        · exact fun hs => ⟨d, hd, hs⟩
      by_cases hs : source dst lastGrant inp outReady d = some j
      · rw [if_pos (htaken.mpr hs), if_pos hs]
        simp [hd]
      · rw [if_neg (mt htaken.mp hs), if_neg hs]
        rfl
    · have hs : source dst lastGrant inp outReady d ≠ some j := by
        intro hs
        obtain ⟨y, hy, hyd⟩ := exists_of_source hs
        rw [hx, Option.some.injEq] at hy
        rw [hy] at hd
        exact hd hyd
      rw [if_neg hs]
      split <;> simp [hd]

/-- **A message that stays at its input goes through**, if the output it wants is ready again and
again. -/
theorem eventually_taken (g : ℕ → Fin n → Fin n) (inp : ℕ → Fin n → Option α)
    (ready : ℕ → Fin n → Bool)
    (hnext : ∀ t, g (t + 1) = next dst (g t) (inp t) (ready t)) (d : Fin n)
    (hready : ∀ t, ∃ u ≥ t, ready u d = true) {x : α} (hx : dst x = d)
    (j : Fin n) {t : ℕ}
    (hstay : ∀ u ≥ t, (∀ v, t ≤ v → v < u → taken dst (g v) (inp v) (ready v) j = false) →
      inp u j = some x) :
    ∃ u ≥ t, inp u j = some x ∧ taken dst (g u) (inp u) (ready u) j = true ∧
      ∀ v, t ≤ v → v < u → taken dst (g v) (inp v) (ready v) j = false := by
  have htaken : ∀ u, inp u j = some x → (taken dst (g u) (inp u) (ready u) j = true ↔
      source dst (g u) (inp u) (ready u) d = some j) := by
    intro u hu
    rw [taken_iff hu]
    constructor
    · rintro ⟨e, he, hs⟩
      have hed : e = d := Fin.val_injective (he.symm.trans hx)
      rwa [hed] at hs
    · exact fun hs => ⟨d, hx, hs⟩
  -- as long as the output has not served the input, the message is there
  have hthere : ∀ u ≥ t, (∀ v, t ≤ v → v < u → source dst (g v) (inp v) (ready v) d ≠ some j) →
      inp u j = some x := by
    intro u
    induction u using Nat.strong_induction_on with
    | _ u ih =>
      intro hu hno
      refine hstay u hu fun v hv hvu => ?_
      have hin := ih v hvu hv fun w hw hwv => hno w hw (hwv.trans hvu)
      exact Bool.eq_false_iff.mpr (mt (htaken v hin).mp (hno v hv hvu))
  have hserve : ∃ u ≥ t, served (g u d) (asks dst (inp u) d) (ready u d) = some j ∧
      ∀ v, t ≤ v → v < u → served (g v d) (asks dst (inp v) d) (ready v d) ≠ some j :=
    eventually_served (fun u => by rw [hnext u, next]) hready
      fun u hu hno => asks_eq_true.mpr ⟨x, hthere u hu hno, hx⟩
  obtain ⟨u, hu, hserved, hbefore⟩ := hserve
  have hin := hthere u hu hbefore
  refine ⟨u, hu, hin, (htaken u hin).mpr hserved, fun v hv hvu => ?_⟩
  have hinv := hthere v hv fun w hw hwv => hbefore w hw (hwv.trans hvu)
  exact Bool.eq_false_iff.mpr (mt (htaken v hinv).mp (hbefore v hv hvu))

end Crossbar

end RiscvSoc
