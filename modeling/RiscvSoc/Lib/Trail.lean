import Mathlib.Data.List.Basic
import Mathlib.Data.Prod.Basic

/-!
# Trails

A list of stops, each at an address of its own and each naming the address after it. A stop carries
a proposition that says whether it is believed: a trail goes on where a believed stop says, and
anywhere behind a stop that is not.

Nothing is asked of a stop that is not believed, so a trail can be cut behind it and continued from
any address (`Leads.retarget`), and believing less keeps a trail a trail (`Leads.believe_less`).
-/

namespace RiscvSoc

variable {α A : Type}

/-- From `a` the stops lead to `b`. -/
def Leads (addr next : α → A) : A → List (α × Prop) → A → Prop
  | a, [], b => a = b
  | a, x :: l, b => addr x.1 = a ∧ ∃ a', (x.2 → a' = next x.1) ∧ Leads addr next a' l b

/-- The stops lead to `b` from somewhere. -/
def Trail (addr next : α → A) (l : List (α × Prop)) (b : A) : Prop := ∃ a, Leads addr next a l b

variable {addr next : α → A} {a b m : A} {l l' : List (α × Prop)} {x : α × Prop}

@[simp] theorem leads_nil : Leads addr next a [] b ↔ a = b := Iff.rfl

@[simp] theorem leads_cons : Leads addr next a (x :: l) b ↔
    addr x.1 = a ∧ ∃ a', (x.2 → a' = next x.1) ∧ Leads addr next a' l b := Iff.rfl

theorem leads_append : Leads addr next a (l ++ l') b ↔
    ∃ m, Leads addr next a l m ∧ Leads addr next m l' b := by
  induction l generalizing a with
  | nil => simp
  | cons x l ih =>
    simp only [List.cons_append, leads_cons, ih]
    constructor
    · rintro ⟨haddr, a', hnext, m, hl, hl'⟩
      exact ⟨m, ⟨haddr, a', hnext, hl⟩, hl'⟩
    · rintro ⟨m, ⟨haddr, a', hnext, hl⟩, hl'⟩
      exact ⟨haddr, a', hnext, m, hl, hl'⟩

theorem leads_singleton (haddr : addr x.1 = a) (hnext : x.2 → b = next x.1) :
    Leads addr next a [x] b := ⟨haddr, b, hnext, rfl⟩

/-- The same stops, each believed only if it was believed before. -/
theorem Leads.believe_less {β : Type} {f : β → α} {p q : β → Prop} {s : List β}
    (h : Leads addr next a (s.map fun y => (f y, p y)) b) (hqp : ∀ y ∈ s, q y → p y) :
    Leads addr next a (s.map fun y => (f y, q y)) b := by
  induction s generalizing a with
  | nil => exact h
  | cons y s ih =>
    obtain ⟨haddr, a', hnext, hrest⟩ := h
    exact ⟨haddr, a', fun hq => hnext (hqp y List.mem_cons_self hq),
      ih hrest fun z hz => hqp z (List.mem_cons_of_mem y hz)⟩

/-- Behind a stop that is not believed anything may follow. -/
theorem Leads.retarget (h : Leads addr next a (l ++ [x]) m) (hx : ¬x.2) :
    Leads addr next a (l ++ [x]) b := by
  obtain ⟨m', hl, haddr, -⟩ := leads_append.mp h
  exact leads_append.mpr ⟨m', hl, haddr, b, fun hx' => absurd hx' hx, rfl⟩

namespace Trail

@[simp] theorem nil : Trail addr next [] b := ⟨b, rfl⟩

theorem of_append (h : Trail addr next (l ++ l') b) : Trail addr next l' b := by
  obtain ⟨a, h⟩ := h
  obtain ⟨m, -, h⟩ := leads_append.mp h
  exact ⟨m, h⟩

theorem exists_of_append (h : Trail addr next (l ++ l') b) : ∃ m, Trail addr next l m := by
  obtain ⟨a, h⟩ := h
  obtain ⟨m, h, -⟩ := leads_append.mp h
  exact ⟨m, a, h⟩

theorem append (h : Trail addr next l m) (h' : Leads addr next m l' b) :
    Trail addr next (l ++ l') b := by
  obtain ⟨a, h⟩ := h
  exact ⟨a, leads_append.mpr ⟨m, h, h'⟩⟩

/-- A believed stop names the address of the stop behind it, or where the trail ends. -/
theorem next_eq (h : Trail addr next (l ++ x :: l') b) (hx : x.2) :
    (l'.head?.map fun y => addr y.1).getD b = next x.1 := by
  obtain ⟨-, -, a', hnext, hrest⟩ := h.of_append
  rw [← hnext hx]
  cases l' with
  | nil => exact hrest.symm
  | cons y l' => exact hrest.1

end Trail

end RiscvSoc
