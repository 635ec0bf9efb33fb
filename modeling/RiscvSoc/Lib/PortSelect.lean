import Mathlib.Logic.Function.Basic
import RiscvSoc.Lib.Encoder

/-!
# Requests of two classes for several ports

Requestors ask for a port; a port can serve some of them. The ports are filled one after the other.
For each, one pass over the requestors serves the high requests and, if none of them took the port,
a second pass serves the low ones. A pass carries along whether the port is taken and which requests
are still to be satisfied.

A high requestor asks in both classes. The first port takes its low request away, so that it is not
served twice.

Nothing here knows about any particular circuit.
-/

namespace RiscvSoc

open Function

variable {n m : ℕ}

/-! ### One pass -/

/-- What a pass carries along. -/
structure Pass (n : ℕ) where
  /-- `request_not_satisfied`. -/
  req : Fin n → Bool
  issue : Fin n → Bool
  portIssued : Bool
  iss : Option (Fin n)

namespace Pass

variable (can : Fin n → Bool)

/-- The body of the loop. -/
def step (x : Pass n) (i : Fin n) : Pass n where
  issue := if x.req i && can i && !x.portIssued then update x.issue i true else x.issue
  iss := if x.req i && can i && !x.portIssued then some i else x.iss
  portIssued := x.req i && can i || x.portIssued
  req := update x.req i (x.req i && (!can i || x.portIssued))

def run (x : Pass n) : Pass n := (List.finRange n).foldl (step can) x

variable {can}

variable {x : Pass n}

/-- A taken port and a request it cannot serve change nothing. -/
theorem step_eq_self {i : Fin n}
    (h : x.portIssued = true ∨ (x.req i && can i) = false) : step can x i = x := by
  obtain ⟨req, issue, portIssued, iss⟩ := x
  rcases h with rfl | h
  · simp [step]
  · have hreq : (req i && (!can i || portIssued)) = req i := by
      cases hr : req i
      · rfl
      · simp_all
    simp [step, h, hreq]

theorem foldl_of_issued (h : x.portIssued = true) (l : List (Fin n)) :
    l.foldl (step can) x = x := by
  induction l with
  | nil => rfl
  | cons i l ih => rw [List.foldl_cons, step_eq_self (.inl h), ih]

/-- The requestor that a pass serves. -/
def served (can : Fin n → Bool) (x : Pass n) : Option (Fin n) :=
  if x.portIssued then none else priorityEncoder fun i => x.req i && can i

/-- **A pass serves the first requestor that the port can serve**, unless the port is taken. -/
theorem run_eq (x : Pass n) : run can x =
    { req := fun i => x.req i && decide (served can x ≠ some i)
      issue := fun i => x.issue i || decide (served can x = some i)
      portIssued := x.portIssued || (served can x).isSome
      iss := (served can x).or x.iss } := by
  by_cases hissued : x.portIssued = true
  · rw [run, foldl_of_issued hissued, served, if_pos hissued]
    simp
  rw [Bool.not_eq_true] at hissued
  rw [served, hissued, if_neg (by simp), priorityEncoder, run]
  generalize List.finRange n = l
  induction l with
  | nil =>
    obtain ⟨req, issue, portIssued, iss⟩ := x
    simp at hissued
    simp [hissued]
  | cons i l ih =>
    rw [List.foldl_cons]
    by_cases hwants : (x.req i && can i) = true
    · have hfind : (i :: l).find? (fun i => x.req i && can i) = some i :=
        List.find?_cons_of_pos hwants
      rw [hfind, foldl_of_issued (by rw [step, hwants]; rfl), step, hwants, hissued]
      obtain ⟨-, hcan⟩ := Bool.and_eq_true_iff.mp hwants
      congr 1
      · funext j
        by_cases hj : j = i
        · subst hj
          simp [hcan]
        · simp [update_of_ne hj, Ne.symm hj]
      · funext j
        by_cases hj : j = i
        · subst hj
          simp
        · simp [update_of_ne hj, Ne.symm hj]
    · have hfind : (i :: l).find? (fun i => x.req i && can i) =
          l.find? fun i => x.req i && can i := List.find?_cons_of_neg hwants
      rw [hfind, step_eq_self (.inr (Bool.not_eq_true _ ▸ hwants)), ih]

theorem of_served {i : Fin n} (h : served can x = some i) :
    x.portIssued = false ∧ x.req i = true ∧ can i = true := by
  rw [served] at h
  split at h
  · cases h
  · have hi := priorityEncoder_some h
    exact ⟨Bool.not_eq_true _ ▸ ‹_›, Bool.and_eq_true_iff.mp hi⟩

/-- A pass that leaves the port free serves nobody it could serve. -/
theorem of_served_none (hissued : x.portIssued = false) (h : served can x = none) (i : Fin n)
    (hreq : x.req i = true) : can i = false := by
  rw [served, hissued, if_neg (by simp), priorityEncoder_eq_none] at h
  have hi := h i
  rwa [hreq, Bool.true_and] at hi

end Pass

/-! ### All ports -/

/-- What the loop over the ports carries along. -/
structure PortSelect (n m : ℕ) where
  /-- `lo_request_not_satisfied`. -/
  lo : Fin n → Bool
  /-- `hi_request_not_satisfied`. -/
  hi : Fin n → Bool
  issue : Fin n → Bool
  /-- `iss_valids`, and the requestor behind `iss_uops`. -/
  iss : Fin m → Option (Fin n)

namespace PortSelect

variable (can : Fin m → Fin n → Bool)

/-- The pass over the high requests for port `w`. -/
def hiPass (x : PortSelect n m) (w : Fin m) : Pass n :=
  Pass.run (can w) ⟨x.hi, x.issue, false, none⟩

/-- The pass over the low requests. The high pass has deasserted those of high requestors. -/
def loPass (x : PortSelect n m) (w : Fin m) : Pass n :=
  let h := x.hiPass can w
  Pass.run (can w) ⟨fun i => x.lo i && !x.hi i, h.issue, h.portIssued, h.iss⟩

def port (x : PortSelect n m) (w : Fin m) : PortSelect n m where
  lo := (x.loPass can w).req
  hi := (x.hiPass can w).req
  issue := (x.loPass can w).issue
  iss := update x.iss w (x.loPass can w).iss

def select (lo hi : Fin n → Bool) : PortSelect n m :=
  (List.finRange m).foldl (port can) ⟨lo, hi, fun _ => false, fun _ => none⟩

/-- A request that is not satisfied. -/
def waiting (x : PortSelect n m) (i : Fin n) : Bool := x.hi i || x.lo i

variable {can}

/-- **One port.** It serves at most one requestor, one that waits and that it can serve; and nobody
it can serve goes on waiting if it serves nobody. -/
theorem port_spec (x : PortSelect n m) (w : Fin m) : ∃ g : Option (Fin n),
    (x.port can w).iss = update x.iss w g ∧
    (∀ i, (x.port can w).issue i = (x.issue i || decide (g = some i))) ∧
    (∀ i, (x.port can w).waiting i = (x.waiting i && decide (g ≠ some i))) ∧
    (∀ i, g = some i → x.waiting i = true ∧ can w i = true) ∧
    (g = none → ∀ i, x.waiting i = true → can w i = false) := by
  have hhi := @Pass.run_eq n (can w) ⟨x.hi, x.issue, false, none⟩
  have hlo := @Pass.run_eq n (can w) ⟨fun i => x.lo i && !x.hi i, (x.hiPass can w).issue,
    (x.hiPass can w).portIssued, (x.hiPass can w).iss⟩
  cases hserved : Pass.served (can w) ⟨x.hi, x.issue, false, none⟩ with
  | some k =>
    obtain ⟨-, hk, hcan⟩ := Pass.of_served hserved
    simp only [hserved] at hhi
    have hissued : (x.hiPass can w).portIssued = true := by
      rw [hiPass, hhi]
      rfl
    have hnone : Pass.served (can w) ⟨fun i => x.lo i && !x.hi i, (x.hiPass can w).issue,
        (x.hiPass can w).portIssued, (x.hiPass can w).iss⟩ = none := if_pos hissued
    simp only [hnone] at hlo
    refine ⟨some k, ?_, ?_, ?_, ?_, ?_⟩
    · rw [port, loPass, hlo, hiPass, hhi]
      rfl
    · intro i
      rw [port, loPass, hlo, hiPass, hhi]
      simp
    · intro i
      rw [waiting, port, loPass, hlo, hiPass, hhi, waiting]
      by_cases hi : k = i
      · subst hi
        have hk' : x.hi k = true := hk
        simp [hk']
      · cases hx : x.hi i <;> simp [hi, hx]
    · rintro i hi
      cases hi
      have hk' : x.hi k = true := hk
      exact ⟨by rw [waiting, hk']; rfl, hcan⟩
    · intro h
      cases h
  | none =>
    have hleft := Pass.of_served_none rfl hserved
    simp only [hserved] at hhi
    have hhiPass : x.hiPass can w = ⟨x.hi, x.issue, false, none⟩ := by
      rw [hiPass, hhi]
      simp
    simp only [hhiPass] at hlo
    refine ⟨Pass.served (can w) ⟨fun i => x.lo i && !x.hi i, x.issue, false, none⟩,
      ?_, ?_, ?_, ?_, ?_⟩
    · rw [port, loPass, hhiPass, hlo, Option.or_none]
    · intro i
      rw [port, loPass, hhiPass, hlo]
    · intro i
      rw [waiting, port, loPass, hhiPass, hlo, waiting]
      by_cases hi : Pass.served (can w) ⟨fun i => x.lo i && !x.hi i, x.issue, false, none⟩ = some i
      · obtain ⟨-, hreq, -⟩ := Pass.of_served hi
        have hreq' : (x.lo i && !x.hi i) = true := hreq
        cases hx : x.hi i <;> simp [hi, hx] at hreq' ⊢
      · cases hx : x.hi i <;> simp [hi, hx]
    · intro i hi
      obtain ⟨-, hreq, hcan⟩ := Pass.of_served hi
      have hreq' : (x.lo i && !x.hi i) = true := hreq
      refine ⟨?_, hcan⟩
      rw [waiting, (Bool.and_eq_true_iff.mp hreq').1, Bool.or_true]
    · intro hnone i hwaits
      cases hx : x.hi i with
      | true => exact hleft i hx
      | false =>
        rw [waiting, hx, Bool.false_or] at hwaits
        exact Pass.of_served_none rfl hnone i (by simp [hwaits, hx])

/-- What the ports `done` have done for the requests `req`. -/
structure Satisfies (can : Fin m → Fin n → Bool) (req : Fin n → Bool) (done : List (Fin m))
    (x : PortSelect n m) : Prop where
  waits : ∀ i, x.waiting i = (req i && !x.issue i)
  issue_iff : ∀ i, x.issue i = true ↔ ∃ w, x.iss w = some i
  asked : ∀ w i, x.iss w = some i → req i = true ∧ can w i = true
  once : ∀ v w i, x.iss v = some i → x.iss w = some i → v = w
  fresh : ∀ w, w ∉ done → x.iss w = none
  idle : ∀ w ∈ done, x.iss w = none → ∀ i, x.waiting i = true → can w i = false

theorem Satisfies.port {req : Fin n → Bool} {done : List (Fin m)} {x : PortSelect n m}
    (h : Satisfies can req done x) {w : Fin m} (hw : w ∉ done) :
    Satisfies can req (done ++ [w]) (x.port can w) := by
  obtain ⟨g, hiss, hissue, hwaits, hserved, hidle⟩ := @port_spec n m can x w
  -- nobody is served by two ports: whoever has been served does not wait
  have hnew (v : Fin m) (i : Fin n) (hg : g = some i) : x.iss v ≠ some i := by
    intro hv
    have hwait := (hserved i hg).1
    rw [h.waits i, (h.issue_iff i).mpr ⟨v, hv⟩] at hwait
    simp at hwait
  refine ⟨?_, ?_, ?_, ?_, ?_, ?_⟩
  · intro i
    rw [hwaits i, h.waits i, hissue i]
    cases req i <;> cases x.issue i <;> simp
  · intro i
    rw [hissue i, hiss, Bool.or_eq_true, decide_eq_true_eq, h.issue_iff i]
    constructor
    · rintro (⟨v, hv⟩ | hg)
      · have hne : v ≠ w := by
          rintro rfl
          rw [h.fresh v hw] at hv
          cases hv
        exact ⟨v, by rw [update_of_ne hne]; exact hv⟩
      · exact ⟨w, by rw [update_self]; exact hg⟩
    · rintro ⟨v, hv⟩
      by_cases hne : v = w
      · subst hne
        rw [update_self] at hv
        exact .inr hv
      · rw [update_of_ne hne] at hv
        exact .inl ⟨v, hv⟩
  · intro v i hv
    rw [hiss] at hv
    by_cases hne : v = w
    · subst hne
      rw [update_self] at hv
      obtain ⟨hwait, hcan⟩ := hserved i hv
      rw [h.waits i] at hwait
      exact ⟨(Bool.and_eq_true_iff.mp hwait).1, hcan⟩
    · rw [update_of_ne hne] at hv
      exact h.asked v i hv
  · intro u v i hu hv
    rw [hiss] at hu hv
    by_cases hu' : u = w <;> by_cases hv' : v = w
    · exact hu'.trans hv'.symm
    · rw [hu', update_self] at hu
      rw [update_of_ne hv'] at hv
      exact absurd hv (hnew v i hu)
    · rw [hv', update_self] at hv
      rw [update_of_ne hu'] at hu
      exact absurd hu (hnew u i hv)
    · rw [update_of_ne hu'] at hu
      rw [update_of_ne hv'] at hv
      exact h.once u v i hu hv
  · intro v hv
    obtain ⟨hold, hne⟩ := not_or.mp (mt List.mem_append.mpr hv)
    rw [hiss, update_of_ne fun heq => hne (List.mem_singleton.mpr heq)]
    exact h.fresh v hold
  · intro v hv hnone i hwait
    rw [hiss] at hnone
    rw [hwaits i, Bool.and_eq_true] at hwait
    by_cases hne : v = w
    · subst hne
      rw [update_self] at hnone
      exact hidle hnone i hwait.1
    · rw [update_of_ne hne] at hnone
      have hold : v ∈ done :=
        (List.mem_append.mp hv).resolve_right fun heq => hne (List.mem_singleton.mp heq)
      exact h.idle v hold hnone i hwait.1

/-- **What the selection does for the requests.** -/
theorem select_satisfies {lo hi : Fin n → Bool} (hle : ∀ i, hi i = true → lo i = true) :
    Satisfies can lo (List.finRange m) (select can lo hi) := by
  have hfold (l done : List (Fin m)) (x : PortSelect n m) (hnodup : (done ++ l).Nodup)
      (h : Satisfies can lo done x) : Satisfies can lo (done ++ l) (l.foldl (port can) x) := by
    induction l generalizing done x with
    | nil => rwa [List.append_nil]
    | cons w l ih =>
      have hw : w ∉ done := by
        intro hmem
        exact (List.disjoint_of_nodup_append hnodup) hmem List.mem_cons_self
      rw [List.append_cons] at hnodup ⊢
      exact ih (done ++ [w]) _ hnodup (h.port hw)
  refine hfold (List.finRange m) [] _ (List.nodup_finRange m) ⟨?_, ?_, ?_, ?_, ?_, ?_⟩
  · intro i
    show (hi i || lo i) = (lo i && !false)
    cases hlo : lo i with
    | true => rw [Bool.or_true]; rfl
    | false =>
      have hhi : hi i = false := by
        rw [← Bool.not_eq_true]
        intro h
        rw [hle i h] at hlo
        cases hlo
      rw [hhi]
      rfl
  · intro i
    constructor
    · intro h
      cases h
    · rintro ⟨w, hw⟩
      cases hw
  · intro w i hw
    cases hw
  · intro v w i hv
    cases hv
  · intro w _
    rfl
  · intro w hw
    cases hw

end PortSelect

end RiscvSoc
