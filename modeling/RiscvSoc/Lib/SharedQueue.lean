import Mathlib.Data.Bool.Basic
import Mathlib.Data.Nat.Init
import Mathlib.Logic.Function.Basic

/-!
# Two servers on one queue

Jobs are issued in order to one of two servers, and each wants the next `R` items of a queue the
servers share. The ledger keeps the number of jobs issued and of items taken so far, and for each
server the job it is serving with the number of items that job has had.

A ledger is in order when the items taken are exactly those of the jobs issued: every job before
the ones being served has had its `R` items, and a job that waits behind another has had none.
Items then arrive where they belong as long as the server of the *earlier* job takes them.

Nothing here knows about any particular system.
-/

namespace RiscvSoc

/-- Jobs issued, items taken, and what the two servers are at. -/
@[ext]
structure Ledger where
  issued : ℕ
  taken : ℕ
  /-- The job each server is at, and the items it has had. -/
  serving : Bool → Option (ℕ × ℕ)

namespace Ledger

variable {R : ℕ} {L : Ledger} {b : Bool} {n k : ℕ}

/-- A job after its next item. -/
def served (R : ℕ) (job : ℕ × ℕ) : Option (ℕ × ℕ) :=
  if job.2 + 1 = R then none else some (job.1, job.2 + 1)

/-- The next job goes to server `b`. -/
def issue (L : Ledger) (b : Bool) : Ledger where
  issued := L.issued + 1
  taken := L.taken
  serving := Function.update L.serving b (some (L.issued, 0))

/-- Server `b` takes an item. -/
def take (L : Ledger) (R : ℕ) (b : Bool) : Ledger where
  issued := L.issued
  taken := L.taken + 1
  serving := Function.update L.serving b ((L.serving b).bind (served R))

/-- Nobody was handed another job's item. -/
structure InOrder (R : ℕ) (L : Ledger) : Prop where
  idle : (∀ b, L.serving b = none) → L.taken = R * L.issued
  lt : ∀ b n k, L.serving b = some (n, k) → k < R
  alone : ∀ b n k, L.serving b = some (n, k) → L.serving (!b) = none →
    n + 1 = L.issued ∧ L.taken = R * n + k
  both : ∀ b n k m j, L.serving b = some (n, k) → L.serving (!b) = some (m, j) →
    n ≠ m ∧ (n < m → n + 1 = m ∧ m + 1 = L.issued ∧ j = 0 ∧ L.taken = R * n + k)

/-- Server `b` is at job `n`, which has had `k` items, and the other server at no earlier job. -/
def IsNext (L : Ledger) (b : Bool) (n k : ℕ) : Prop :=
  L.serving b = some (n, k) ∧ ∀ m j, L.serving (!b) = some (m, j) → n < m

theorem serving_issue_self : (L.issue b).serving b = some (L.issued, 0) :=
  Function.update_self ..

theorem serving_issue_not : (L.issue b).serving (!b) = L.serving (!b) :=
  Function.update_of_ne (by simp) ..

theorem serving_take_self : (L.take R b).serving b = (L.serving b).bind (served R) :=
  Function.update_self ..

theorem serving_take_not : (L.take R b).serving (!b) = L.serving (!b) :=
  Function.update_of_ne (by simp) ..

namespace InOrder

/-- The server whose turn it is has had all the items before. -/
theorem taken_eq (h : L.InOrder R) (hnext : L.IsNext b n k) : L.taken = R * n + k := by
  obtain ⟨hb, hother⟩ := hnext
  rcases ho : L.serving (!b) with _ | ⟨m, j⟩
  · exact (h.alone b n k hb ho).2
  · exact ((h.both b n k m j hb ho).2 (hother m j ho)).2.2.2

/-- **Whose turn it is.** The next item is item `taken % R` of job `taken / R`. -/
theorem isNext_iff (h : L.InOrder R) (hb : L.serving b = some (n, k)) :
    L.IsNext b n k ↔ (n, k) = (L.taken / R, L.taken % R) := by
  have turn : ∀ {b n k}, L.IsNext b n k → L.taken / R = n ∧ L.taken % R = k := by
    intro b n k hnext
    have hk := h.lt b n k hnext.1
    rw [h.taken_eq hnext, Nat.mul_add_div (by omega), Nat.div_eq_of_lt hk, Nat.mul_add_mod,
      Nat.mod_eq_of_lt hk]
    exact ⟨rfl, rfl⟩
  constructor
  · intro hnext
    obtain ⟨hn, hk⟩ := turn hnext
    rw [hn, hk]
  · intro heq
    refine ⟨hb, fun m j hother => ?_⟩
    by_contra hge
    have hb' : L.serving (!!b) = some (n, k) := by rwa [Bool.not_not]
    have hne := (h.both b n k m j hb hother).1
    have hnext : L.IsNext (!b) m j := by
      refine ⟨hother, fun n' k' hn' => ?_⟩
      rw [hb', Option.some.injEq, Prod.mk.injEq] at hn'
      omega
    have hm := (turn hnext).1
    have hn := congrArg Prod.fst heq
    omega

theorem issue (h : L.InOrder R) (hR : 0 < R) (hfree : L.serving b = none) :
    (L.issue b).InOrder R := by
  have hself : (L.issue b).serving b = some (L.issued, 0) := serving_issue_self
  have hother : (L.issue b).serving (!b) = L.serving (!b) := serving_issue_not
  have hfree' : L.serving (!!b) = none := by rwa [Bool.not_not]
  -- the other server, if it is busy, is alone before
  have halone : ∀ n k, L.serving (!b) = some (n, k) → n + 1 = L.issued ∧ L.taken = R * n + k :=
    fun n k hb => h.alone (!b) n k hb hfree'
  refine ⟨fun hnone => ?_, fun b' n k hb => ?_, fun b' n k hb hnone => ?_,
    fun b' n k m j hb hb' => ?_⟩
  · rw [hnone b] at hself
    exact absurd hself (by simp)
  · rcases Bool.eq_or_eq_not b' b with rfl | rfl
    · rw [hself] at hb
      cases hb
      exact hR
    · exact h.lt _ n k (hother ▸ hb)
  · rcases Bool.eq_or_eq_not b' b with rfl | rfl
    · rw [hself] at hb
      cases hb
      refine ⟨rfl, h.idle fun c => ?_⟩
      rcases Bool.eq_or_eq_not c b' with rfl | rfl
      · exact hfree
      · exact hother ▸ hnone
    · rw [Bool.not_not, hself] at hnone
      exact absurd hnone (by simp)
  · rcases Bool.eq_or_eq_not b' b with rfl | rfl
    · rw [hself] at hb
      rw [hother] at hb'
      cases hb
      obtain ⟨hm, _⟩ := halone m j hb'
      exact ⟨by omega, by omega⟩
    · rw [hother] at hb
      rw [Bool.not_not, hself] at hb'
      cases hb'
      obtain ⟨hn, htaken⟩ := halone n k hb
      exact ⟨by omega, fun _ => ⟨hn, rfl, rfl, htaken⟩⟩

theorem take (h : L.InOrder R) (hnext : L.IsNext b n k) : (L.take R b).InOrder R := by
  obtain ⟨hb, hlater⟩ := hnext
  have hk := h.lt b n k hb
  have htaken := h.taken_eq ⟨hb, hlater⟩
  have hself : (L.take R b).serving b = served R (n, k) := by
    rw [serving_take_self, hb]
    rfl
  have hother : (L.take R b).serving (!b) = L.serving (!b) := serving_take_not
  have hmul : R * (n + 1) = R * n + R := Nat.mul_succ R n
  have hboth : ∀ m j, L.serving (!b) = some (m, j) → n + 1 = m ∧ m + 1 = L.issued ∧ j = 0 := by
    intro m j ho
    obtain ⟨h₁, h₂, h₃, _⟩ := (h.both b n k m j hb ho).2 (hlater m j ho)
    exact ⟨h₁, h₂, h₃⟩
  have hsucc : (L.take R b).taken = R * n + k + 1 := congrArg (· + 1) htaken
  by_cases hlast : k + 1 = R
  · -- the job is done
    rw [served, if_pos hlast] at hself
    refine ⟨fun hnone => ?_, fun b' m j hb' => ?_, fun b' m j hb' hnone => ?_,
      fun b' m j m' j' hb' hb'' => ?_⟩
    · have ho : L.serving (!b) = none := hother ▸ hnone (!b)
      obtain ⟨hn, _⟩ := h.alone b n k hb ho
      change (L.take R b).taken = R * L.issued
      rw [hsucc, ← hn]
      omega
    · rcases Bool.eq_or_eq_not b' b with rfl | rfl
      · rw [hself] at hb'
        cases hb'
      · exact h.lt _ m j (hother ▸ hb')
    · rcases Bool.eq_or_eq_not b' b with rfl | rfl
      · rw [hself] at hb'
        cases hb'
      · obtain ⟨rfl, hm, rfl⟩ := hboth m j (hother ▸ hb')
        exact ⟨hm, by omega⟩
    · rcases Bool.eq_or_eq_not b' b with rfl | rfl
      · rw [hself] at hb'
        cases hb'
      · rw [Bool.not_not, hself] at hb''
        cases hb''
  · rw [served, if_neg hlast] at hself
    refine ⟨fun hnone => ?_, fun b' m j hb' => ?_, fun b' m j hb' hnone => ?_,
      fun b' m j m' j' hb' hb'' => ?_⟩
    · rw [hnone b] at hself
      cases hself
    · rcases Bool.eq_or_eq_not b' b with rfl | rfl
      · rw [hself] at hb'
        cases hb'
        exact show k + 1 < R by omega
      · exact h.lt _ m j (hother ▸ hb')
    · rcases Bool.eq_or_eq_not b' b with rfl | rfl
      · rw [hself] at hb'
        cases hb'
        exact ⟨(h.alone _ n k hb (hother ▸ hnone)).1, by rw [hsucc, Nat.add_assoc]⟩
      · rw [Bool.not_not, hself] at hnone
        cases hnone
    · rcases Bool.eq_or_eq_not b' b with rfl | rfl
      · rw [hself] at hb'
        cases hb'
        obtain ⟨hm, hm', hj⟩ := hboth m' j' (hother ▸ hb'')
        exact ⟨by omega, fun _ => ⟨hm, hm', hj, by rw [hsucc, Nat.add_assoc]⟩⟩
      · rw [Bool.not_not, hself] at hb''
        cases hb''
        have := hlater m j (hother ▸ hb')
        exact ⟨by omega, fun hlt => by omega⟩

end InOrder

end Ledger

end RiscvSoc
