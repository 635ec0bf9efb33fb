import RiscvSoc.Lib.Encoder

/-!
# Arbiters

The arbiters of the circuit library: several producers share one consumer. `Arbiter` serves the
lowest producer that asks; `RRArbiter` starts the search behind the one that was served last. A
producer sees `ready` as soon as nobody before it asks, whether it asks itself or not; a handshake
happens where `valid` and `ready` meet.
-/

namespace RiscvSoc

theorem filterMap_single {α β : Type} [DecidableEq α] {l : List α} {a : α} (hnodup : l.Nodup)
    (hmem : a ∈ l) (x : β) : l.filterMap (fun b => if b = a then some x else none) = [x] := by
  rw [filterMap_of_unique hnodup hmem fun b _ hb => if_neg hb, if_pos rfl]
  rfl

namespace Arbiter

variable {n : ℕ} (valid : Fin n → Bool) (outReady : Bool)

/-- `ArbiterCtrl`: nobody before producer `i` asks. -/
def ctrl (i : Fin n) : Bool := decide (∀ j < i, valid j = false)

/-- `io.in(i).ready`. -/
def inReady (i : Fin n) : Bool := ctrl valid i && outReady

/-- `io.out.valid`. -/
def outValid : Bool := orR valid

/-- Producer `i` is served. -/
def fires (i : Fin n) : Bool := valid i && inReady valid outReady i

variable {valid outReady}

theorem fires_eq_true {i : Fin n} :
    fires valid outReady i = true ↔ outReady = true ∧ priorityEncoder valid = some i := by
  rw [priorityEncoder_eq_some, fires, inReady, ctrl, Bool.and_eq_true, Bool.and_eq_true,
    decide_eq_true_eq]
  constructor
  · rintro ⟨hi, hfirst, hout⟩
    exact ⟨hout, hi, hfirst⟩
  · rintro ⟨hout, hi, hfirst⟩
    exact ⟨hi, hfirst, hout⟩

theorem fires_inj {i j : Fin n} (hi : fires valid outReady i = true)
    (hj : fires valid outReady j = true) : i = j := by
  have heq := (fires_eq_true.mp hi).2.symm.trans (fires_eq_true.mp hj).2
  exact Option.some.inj heq

/-- If somebody asks and the consumer is ready, somebody is served. -/
theorem exists_fires (hvalid : outValid valid = true) (hready : outReady = true) :
    ∃ i, fires valid outReady i = true := by
  obtain ⟨i, hi⟩ := Option.isSome_iff_exists.mp hvalid
  exact ⟨i, fires_eq_true.mpr ⟨hready, hi⟩⟩

end Arbiter

namespace RRArbiter

variable {n : ℕ} (lastGrant : Fin n) (valid : Fin n → Bool) (outReady : Bool)

/-- Producer `i` asks, and its turn is still to come in this round. -/
def late (i : Fin n) : Bool := valid i && decide (lastGrant < i)

/-- `grant`: the first one of this round, or the first one of all if the round is over. -/
def grant (i : Fin n) : Bool :=
  decide (∀ j < i, late lastGrant valid j = false) && decide (lastGrant < i) ||
    decide (∀ j, late lastGrant valid j = false) && decide (∀ j < i, valid j = false)

/-- `io.in(i).ready`. -/
def inReady (i : Fin n) : Bool := grant lastGrant valid i && outReady

/-- `chosen`, if somebody asks. -/
def chosen : Option (Fin n) :=
  (priorityEncoder (late lastGrant valid)).or (priorityEncoder valid)

/-- Producer `i` is served. -/
def fires (i : Fin n) : Bool := valid i && inReady lastGrant valid outReady i

variable {lastGrant valid outReady}

theorem fires_eq_true {i : Fin n} : fires lastGrant valid outReady i = true ↔
    outReady = true ∧ chosen lastGrant valid = some i := by
  have hfires : fires lastGrant valid outReady i = true ↔ outReady = true ∧ valid i = true ∧
      ((∀ j < i, late lastGrant valid j = false) ∧ lastGrant < i ∨
        (∀ j, late lastGrant valid j = false) ∧ ∀ j < i, valid j = false) := by
    rw [fires, inReady, grant]
    simp only [Bool.and_eq_true, Bool.or_eq_true, decide_eq_true_eq]
    exact ⟨fun ⟨hi, hg, ho⟩ => ⟨ho, hi, hg⟩, fun ⟨ho, hi, hg⟩ => ⟨hi, hg, ho⟩⟩
  rw [hfires]
  refine and_congr_right fun _ => ?_
  rw [chosen]
  cases hlate : priorityEncoder (late lastGrant valid) with
  | none =>
    have hno := priorityEncoder_eq_none.mp hlate
    rw [Option.none_or, priorityEncoder_eq_some]
    constructor
    · rintro ⟨hi, ⟨_, hlt⟩ | ⟨_, hfirst⟩⟩
      · have := hno i
        rw [late, hi, decide_eq_true hlt] at this
        cases this
      · exact ⟨hi, hfirst⟩
    · rintro ⟨hi, hfirst⟩
      exact ⟨hi, .inr ⟨hno, hfirst⟩⟩
  | some k =>
    obtain ⟨hk, hfirst⟩ := priorityEncoder_eq_some.mp hlate
    rw [Option.some_or, Option.some.injEq]
    constructor
    · rintro ⟨hi, ⟨hbefore, hlt⟩ | ⟨hno, _⟩⟩
      · have hup : late lastGrant valid i = true := by
          rw [late, hi, decide_eq_true hlt]
          rfl
        rcases lt_trichotomy k i with h | h | h
        · rw [hbefore k h] at hk
          cases hk
        · exact h
        · rw [hfirst i h] at hup
          cases hup
      · rw [hno k] at hk
        cases hk
    · rintro rfl
      obtain ⟨hvalid, hlt⟩ := Bool.and_eq_true_iff.mp hk
      exact ⟨hvalid, .inl ⟨hfirst, of_decide_eq_true hlt⟩⟩

theorem valid_of_chosen {i : Fin n} (h : chosen lastGrant valid = some i) : valid i = true := by
  have hfires := fires_eq_true.mpr ⟨rfl, h⟩
  exact (Bool.and_eq_true_iff.mp hfires).1

theorem chosen_eq_none : chosen lastGrant valid = none ↔ ∀ i, valid i = false := by
  rw [chosen, Option.or_eq_none_iff, priorityEncoder_eq_none, priorityEncoder_eq_none]
  refine and_iff_right_of_imp fun h i => ?_
  rw [late, h i, Bool.false_and]

/-! ### Nobody waits forever

Every time somebody else is served, the search comes closer to a producer that waits. -/

/-- Who is served asks, and is the first one of this round, or the first one of all if the round is
over. -/
theorem chosen_eq_some {k : Fin n} : chosen lastGrant valid = some k ↔ valid k = true ∧
    ((∀ j < k, late lastGrant valid j = false) ∧ lastGrant < k ∨
      (∀ j, late lastGrant valid j = false) ∧ ∀ j < k, valid j = false) := by
  have h : fires lastGrant valid true k = true ↔ true = true ∧ chosen lastGrant valid = some k :=
    fires_eq_true
  rw [fires, inReady, grant] at h
  simpa using h.symm

/-- How many producers come before `i` in the search. -/
def distance (lastGrant i : Fin n) : ℕ :=
  if lastGrant < i then i - lastGrant - 1 else i + n - lastGrant - 1

/-- A producer that is passed over is closer in the next search. -/
theorem distance_lt {i k : Fin n} (hi : valid i = true) (hk : chosen lastGrant valid = some k)
    (hne : k ≠ i) : distance k i < distance lastGrant i := by
  obtain ⟨-, ⟨hfirst, hlt⟩ | ⟨hnone, hfirst⟩⟩ := chosen_eq_some.mp hk
  · have hik : ¬ (lastGrant < i ∧ i < k) := by
      rintro ⟨hgi, hik⟩
      have := hfirst i hik
      rw [late, hi, decide_eq_true hgi] at this
      cases this
    grind [distance]
  · have hgi : ¬ lastGrant < i := by
      intro hgi
      have := hnone i
      rw [late, hi, decide_eq_true hgi] at this
      cases this
    have hki : ¬ i < k := by
      intro hik
      rw [hfirst i hik] at hi
      cases hi
    grind [distance]

variable (lastGrant valid outReady) in
/-- Who is served in a cycle. -/
def served : Option (Fin n) := if outReady then chosen lastGrant valid else none

variable (lastGrant valid outReady) in
/-- `last_grant` in the next cycle. -/
def next : Fin n := (served lastGrant valid outReady).getD lastGrant

theorem fires_iff_served {i : Fin n} :
    fires lastGrant valid outReady i = true ↔ served lastGrant valid outReady = some i := by
  rw [fires_eq_true, served]
  cases outReady <;> simp

theorem valid_of_served {i : Fin n} (h : served lastGrant valid outReady = some i) :
    valid i = true :=
  (Bool.and_eq_true_iff.mp (fires_iff_served.mpr h)).1

/-- **Whoever keeps asking is served**, if the consumer is ready again and again. -/
theorem eventually_served {g : ℕ → Fin n} {valid : ℕ → Fin n → Bool} {ready : ℕ → Bool}
    (hnext : ∀ t, g (t + 1) = next (g t) (valid t) (ready t))
    (hready : ∀ t, ∃ u ≥ t, ready u = true) {i : Fin n} {t : ℕ}
    (hask : ∀ u ≥ t, (∀ v, t ≤ v → v < u → served (g v) (valid v) (ready v) ≠ some i) →
      valid u i = true) :
    ∃ u ≥ t, served (g u) (valid u) (ready u) = some i ∧
      ∀ v, t ≤ v → v < u → served (g v) (valid v) (ready v) ≠ some i := by
  by_contra hnever
  have hno : ∀ u ≥ t, served (g u) (valid u) (ready u) ≠ some i := by
    intro u
    induction u using Nat.strong_induction_on with
    | _ u ih =>
      intro hu hserved
      exact hnever ⟨u, hu, hserved, fun v hv hvu => ih v hvu hv⟩
  have hasks : ∀ u ≥ t, valid u i = true := fun u hu => hask u hu fun v hv _ => hno v hv
  -- the distance never grows, and it shrinks when the consumer is ready
  have hstep : ∀ u ≥ t, distance (g (u + 1)) i ≤ distance (g u) i ∧
      (ready u = true → distance (g (u + 1)) i < distance (g u) i) := by
    intro u hu
    rw [hnext u, next]
    cases hr : ready u with
    | false => simp [served]
    | true =>
      have hsome : chosen (g u) (valid u) ≠ none := by
        intro h
        have := chosen_eq_none.mp h i
        rw [hasks u hu] at this
        cases this
      obtain ⟨k, hk⟩ := Option.ne_none_iff_exists'.mp hsome
      have hne : k ≠ i := by
        rintro rfl
        exact hno u hu (by rw [hr, served, if_pos rfl, hk])
      have hlt := distance_lt (hasks u hu) hk hne
      simp only [served, if_true, hk, Option.getD_some]
      exact ⟨hlt.le, fun _ => hlt⟩
  have hmono : ∀ d u, u ≥ t → distance (g (u + d)) i ≤ distance (g u) i := by
    intro d u hu
    induction d with
    | zero => exact le_rfl
    | succ d ih => exact ((hstep (u + d) (by omega)).1).trans ih
  have hdown : ∀ m u, u ≥ t → distance (g u) i ≥ m := by
    intro m
    induction m with
    | zero => exact fun _ _ => Nat.zero_le _
    | succ m ih =>
      intro u hu
      obtain ⟨v, hv, hr⟩ := hready u
      obtain ⟨d, rfl⟩ := Nat.exists_eq_add_of_le hv
      have hlater := ih (u + d + 1) (by omega)
      have hlt := (hstep (u + d) (by omega)).2 hr
      have hle := hmono d u hu
      omega
  exact absurd (hdown (distance (g t) i + 1) t le_rfl) (by omega)

/-! ### What goes through -/

section Channel

variable {α : Type}

section Cycle

variable (lastGrant : Fin n) (inp : Fin n → Option α) (outReady : Bool)

/-- `io.out.bits` under `io.out.valid`, with the producer it comes from. -/
def shown : Option (Fin n × α) :=
  (chosen lastGrant fun j => (inp j).isSome).bind fun j => (inp j).map (Prod.mk j)

/-- What the producers hand over, each at its own handshake. -/
def given : List (Fin n × α) :=
  (List.finRange n).filterMap fun j =>
    if inReady lastGrant (fun j => (inp j).isSome) outReady j then (inp j).map (Prod.mk j) else none

end Cycle

variable {lastGrant : Fin n} {inp : Fin n → Option α} {outReady : Bool}

/-- **What the producers hand over is what the consumer takes.** -/
theorem given_eq :
    given lastGrant inp outReady = if outReady then (shown lastGrant inp).toList else [] := by
  have hentry : ∀ j, (if inReady lastGrant (fun j => (inp j).isSome) outReady j then
      (inp j).map (Prod.mk j) else none) = if served lastGrant (fun j => (inp j).isSome) outReady =
        some j then (inp j).map (Prod.mk j) else none := by
    intro j
    cases hx : inp j with
    | none => simp
    | some x =>
      have hfires : fires lastGrant (fun j => (inp j).isSome) outReady j = true ↔
          served lastGrant (fun j => (inp j).isSome) outReady = some j := fires_iff_served
      rw [fires, Bool.and_eq_true, and_iff_right (by rw [hx]; rfl)] at hfires
      by_cases hs : served lastGrant (fun j => (inp j).isSome) outReady = some j
      · rw [if_pos hs, if_pos (hfires.mpr hs)]
      · rw [if_neg hs, if_neg (mt hfires.mp hs)]
  rw [given, funext hentry, shown]
  cases hr : outReady with
  | false => simp [served]
  | true =>
    cases hc : chosen lastGrant (fun j => (inp j).isSome) with
    | none => simp [served, hc]
    | some k =>
      obtain ⟨x, hx⟩ := Option.isSome_iff_exists.mp (valid_of_chosen hc)
      have hone : ∀ j, (if served lastGrant (fun j => (inp j).isSome) true = some j then
          (inp j).map (Prod.mk j) else none) = if j = k then some (k, x) else none := by
        intro j
        by_cases hj : j = k
        · subst hj
          simp [served, hc, hx]
        · simp [served, hc, hj, Ne.symm hj]
      rw [funext hone, filterMap_single (List.nodup_finRange n) (List.mem_finRange k)]
      simp [hx]

/-- **What a producer keeps offering goes through**, if the consumer is ready again and again. -/
theorem eventually_given {g : ℕ → Fin n} {inp : ℕ → Fin n → Option α} {ready : ℕ → Bool}
    (hnext : ∀ t, g (t + 1) = next (g t) (fun j => (inp t j).isSome) (ready t))
    (hready : ∀ t, ∃ u ≥ t, ready u = true) {j : Fin n} {x : α} {t : ℕ}
    (hstay : ∀ u ≥ t, (∀ v, t ≤ v → v < u → (j, x) ∉ given (g v) (inp v) (ready v)) →
      inp u j = some x) :
    ∃ u ≥ t, (j, x) ∈ given (g u) (inp u) (ready u) := by
  have hgiven : ∀ u, served (g u) (fun j => (inp u j).isSome) (ready u) = some j →
      inp u j = some x → (j, x) ∈ given (g u) (inp u) (ready u) := by
    intro u hs hx
    rw [served] at hs
    rw [given_eq, shown]
    cases hr : ready u with
    | false => simp [hr] at hs
    | true =>
      rw [hr, if_pos rfl] at hs
      simp [hs, hx]
  by_contra hno
  push Not at hno
  have hthere : ∀ u ≥ t, inp u j = some x := fun u hu => hstay u hu fun v hv _ => hno v hv
  obtain ⟨u, hu, hs, -⟩ := eventually_served (i := j) (t := t) hnext hready
    fun u hu _ => by rw [hthere u hu]; rfl
  exact hno u hu (hgiven u hs (hthere u hu))

end Channel

end RRArbiter

end RiscvSoc
