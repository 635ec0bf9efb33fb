import RiscvSoc.Lib.Encoder
import RiscvSoc.Lib.VecMux

/-!
# The return address stack

`RAS` from `rocket/src/main/scala/btb.scala`: registers in a ring, the position of the top and how
many entries are held. The position moves by one, up for a push and down for a pop. For a power of
two it wraps around by itself. Otherwise a push steps from position 0 to position 0, where it should
step from the last position to 0; so the second push after reset overwrites the first. With a single
entry the position has one bit all the same, and every other push goes to an entry that is not
there.
-/

namespace RiscvSoc

/-- The registers; `count` has `log2Up(nras+1)` bits, `pos` has `log2Up(nras)`. -/
structure RAS (α : Type) (nras : ℕ) where
  count : ℕ
  pos : ℕ
  stack : Fin nras → α

inductive RASOp (α : Type)
  | push (addr : α)
  | pop
  | clear

namespace RAS

variable {α : Type} {nras : ℕ}

section Circuit

variable (s : RAS α nras)

def isEmpty : Bool := decide (s.count = 0)

def peek [NeZero nras] : α := VecMux.read s.stack s.pos

def nextPos : ℕ :=
  if isPow2 nras || decide (s.pos > 0) then (s.pos + 1) % 2 ^ Bits.log2Up nras else 0

def push (addr : α) : RAS α nras where
  count := if s.count < nras then (s.count + 1) % 2 ^ Bits.log2Up (nras + 1) else s.count
  pos := s.nextPos
  stack := VecMux.write s.stack s.nextPos addr

def pop : RAS α nras :=
  if s.isEmpty then s
  else
    { s with
      count := s.count - 1
      pos :=
        if isPow2 nras || decide (s.pos > 0) then
          (s.pos + 2 ^ Bits.log2Up nras - 1) % 2 ^ Bits.log2Up nras
        else nras - 1 }

def clear : RAS α nras := { s with count := 0 }

def next : RASOp α → RAS α nras
  | .push addr => s.push addr
  | .pop => s.pop
  | .clear => s.clear

/-- One operation after the other. -/
def run (ops : List (RASOp α)) : RAS α nras := ops.foldl next s

structure IsReset : Prop where
  count : s.count = 0
  pos : s.pos = 0

end Circuit

/-! ### The ideal stack -/

/-- What one operation does to a stack of at most `nras` elements, the top standing first. -/
def idealNext (nras : ℕ) (l : List α) : RASOp α → List α
  | .push addr => (addr :: l).take nras
  | .pop => l.tail
  | .clear => []

def ideal (nras : ℕ) (ops : List (RASOp α)) : List α := ops.foldl (idealNext nras) []

/-- After any operations the stack is empty when the ideal one is, and otherwise shows its top. -/
def Exact (α : Type) (nras : ℕ) [NeZero nras] : Prop :=
  ∀ s : RAS α nras, s.IsReset → ∀ ops, ((s.run ops).isEmpty = (ideal nras ops).isEmpty) ∧
    ∀ x ∈ (ideal nras ops).head?, (s.run ops).peek = x

/-! ### Powers of two -/

/-- The place `j` entries below place `p`. -/
def below (n p j : ℕ) : ℕ := if j ≤ p then p - j else p + n - j

/-- The registers hold the list. -/
structure Holds (s : RAS α nras) (l : List α) : Prop where
  count : s.count = l.length
  le : l.length ≤ nras
  lt : s.pos < nras
  entry : ∀ j x, l[j]? = some x → ∀ k : Fin nras, k.val = below nras s.pos j → s.stack k = x

namespace Holds

variable {s : RAS α nras} {l : List α}

theorem isEmpty (h : Holds s l) : s.isEmpty = l.isEmpty := by
  rw [RAS.isEmpty, h.count]
  cases l <;> rfl

theorem peek [NeZero nras] (h : Holds s l) {x : α} (hx : x ∈ l.head?) : s.peek = x := by
  rw [RAS.peek, VecMux.read_eq s.stack ⟨s.pos, h.lt⟩]
  refine h.entry 0 x ?_ _ rfl
  rw [← List.head?_eq_getElem?]
  exact hx

section

variable (h : Holds s l) (hpow : isPow2 nras = true) (hne : nras ≠ 1)
include h hpow hne

theorem nextPos :
    s.nextPos = if s.pos + 1 = nras then 0 else s.pos + 1 := by
  have hlt := h.lt
  rw [RAS.nextPos, hpow, two_pow_log2Up_of_isPow2 hpow hne, Bool.true_or, if_pos rfl]
  split
  · rename_i heq
    rw [heq, Nat.mod_self]
  · exact Nat.mod_eq_of_lt (by omega)

theorem push (addr : α) :
    Holds (s.push addr) ((addr :: l).take nras) := by
  have hpos := h.nextPos hpow hne
  have hlt := h.lt
  have hnext : s.nextPos < nras := by
    rw [hpos]
    split <;> omega
  have hle := h.le
  refine ⟨?_, ?_, hnext, ?_⟩
  · have hroom : nras + 1 ≤ 2 ^ Bits.log2Up (nras + 1) := Bits.le_two_pow_log2Up _
    rw [RAS.push, h.count, List.length_take, List.length_cons]
    dsimp only
    split
    · rw [Nat.mod_eq_of_lt (by omega), Nat.min_eq_right (by omega)]
    · omega
  · rw [List.length_take]
    exact Nat.min_le_left ..
  · intro j x hx k hk
    rw [List.getElem?_take] at hx
    split at hx
    · rename_i hj
      have hwrite := VecMux.write_eq s.stack ⟨s.nextPos, hnext⟩ k addr
      refine hwrite.trans ?_
      have hpos' : (s.push addr).pos = s.nextPos := rfl
      rw [hpos', hpos, below] at hk
      cases j with
      | zero =>
        -- the top is what was written
        rw [if_pos (Nat.zero_le _), Nat.sub_zero, ← hpos] at hk
        rw [if_pos (Fin.ext hk)]
        exact Option.some.inj hx
      | succ j =>
        have hbelow : k.val = below nras s.pos j := by
          rw [hk, below]
          split <;> split <;> split <;> omega
        rw [if_neg, h.entry j x hx k hbelow]
        intro heq
        have hval : k.val = s.nextPos := congrArg Fin.val heq
        rw [hval, hpos, below] at hbelow
        split at hbelow <;> split at hbelow <;> omega
    · cases hx

theorem pop :
    Holds s.pop l.tail := by
  have hlt := h.lt
  have hle := h.le
  cases l with
  | nil =>
    rw [RAS.pop, h.isEmpty, List.isEmpty_nil, if_pos rfl]
    exact h
  | cons y l =>
    rw [RAS.pop, h.isEmpty, hpow, two_pow_log2Up_of_isPow2 hpow hne, Bool.true_or]
    have hpos : (s.pos + nras - 1) % nras = below nras s.pos 1 := by
      rw [below]
      split
      · rw [show s.pos + nras - 1 = s.pos - 1 + nras by omega, Nat.add_mod_right,
          Nat.mod_eq_of_lt (by omega)]
      · exact Nat.mod_eq_of_lt (by omega)
    rw [List.length_cons] at hle
    refine ⟨?_, ?_, ?_, ?_⟩
    · show s.count - 1 = l.length
      rw [h.count, List.length_cons, Nat.add_sub_cancel]
    · exact (Nat.le_succ _).trans hle
    · exact Nat.mod_lt _ (by omega)
    · intro j x hx k hk
      refine h.entry (j + 1) x hx k (hk.trans ?_)
      have hj : j < l.length := (List.getElem?_eq_some_iff.mp hx).1
      show below nras ((s.pos + nras - 1) % nras) j = below nras s.pos (j + 1)
      rw [hpos, below, below, below]
      split <;> split <;> split <;> omega

end

theorem clear (h : Holds s l) : Holds s.clear [] :=
  ⟨rfl, Nat.zero_le _, h.lt, fun _ _ hx => by cases hx⟩

theorem next (h : Holds s l) (hpow : isPow2 nras = true) (hne : nras ≠ 1) (op : RASOp α) :
    Holds (s.next op) (idealNext nras l op) := by
  cases op with
  | push addr => exact h.push hpow hne addr
  | pop => exact h.pop hpow hne
  | clear => exact h.clear

theorem run (h : Holds s l) (hpow : isPow2 nras = true) (hne : nras ≠ 1)
    (ops : List (RASOp α)) : Holds (s.run ops) (ops.foldl (idealNext nras) l) := by
  induction ops generalizing s l with
  | nil => exact h
  | cons op ops ih => exact ih (h.next hpow hne op)

end Holds

theorem exact_of_isPow2 [NeZero nras] (hpow : isPow2 nras = true) (hne : nras ≠ 1) :
    Exact α nras := by
  intro s hreset ops
  have hstart : Holds s [] :=
    ⟨hreset.count, Nat.zero_le _, hreset.pos ▸ Nat.pos_of_ne_zero (NeZero.ne nras),
      fun _ _ hx => by cases hx⟩
  have hrun : Holds (s.run ops) (ideal nras ops) := hstart.run hpow hne ops
  exact ⟨hrun.isEmpty, fun x => hrun.peek⟩

/-! ### Other sizes -/

/-- The stack after reset, with the same address everywhere. -/
def start (nras : ℕ) (x : α) : RAS α nras := ⟨0, 0, fun _ => x⟩

theorem isReset_start (x : α) : (start nras x).IsReset := ⟨rfl, rfl⟩

theorem push_start_one (x y : α) : ((start 1 x).push y).stack = fun _ => x := by
  have hnext : (start 1 x).nextPos = 1 := rfl
  rw [push, hnext]
  exact VecMux.write_of_le _ (by decide) y

/-- After two pushes and a pop the top is an entry that was never written. -/
theorem run_start (x y z : α) (hpow : isPow2 nras = false) (hlen : 2 < nras) :
    (start nras x).run [.push y, .push z, .pop] =
      ⟨1, nras - 1, fun k => if k.val = 0 then z else x⟩ := by
  have hone : 2 < 2 ^ Bits.log2Up (nras + 1) :=
    hlen.trans (Nat.lt_of_succ_le (Bits.le_two_pow_log2Up (nras + 1)))
  have hpush (s : RAS α nras) (v : α) (hcount : s.count < 2) (hpos : s.pos = 0) :
      s.push v = ⟨s.count + 1, 0, fun k => if k.val = 0 then v else s.stack k⟩ := by
    have hnext : s.nextPos = 0 := by
      rw [nextPos, hpow, hpos]
      rfl
    rw [push, hnext, if_pos (by omega), Nat.mod_eq_of_lt (by omega)]
    refine congrArg _ (funext fun k => ?_)
    rw [VecMux.write, Nat.zero_mod]
  have hsecond : (start nras x).run [.push y, .push z, .pop] =
      (((start nras x).push y).push z).pop := rfl
  rw [hsecond, hpush (start nras x) y Nat.zero_lt_two rfl, hpush _ z Nat.one_lt_two rfl, pop,
    hpow]
  refine congrArg (RAS.mk 1 (nras - 1)) (funext fun k => ?_)
  dsimp only [start]
  split <;> rfl

/-- **The stack is the ideal one for the powers of two from two on**, and for no other size. -/
theorem exact_iff_isPow2 (α : Type) [Nontrivial α] (nras : ℕ) [NeZero nras] :
    Exact α nras ↔ isPow2 nras = true ∧ nras ≠ 1 := by
  refine ⟨fun hexact => ?_, fun h => exact_of_isPow2 h.1 h.2⟩
  obtain ⟨x, y, hne⟩ := exists_pair_ne α
  have hsize : nras ≠ 1 := by
    rintro rfl
    have hpeek := (hexact (start 1 x) (isReset_start x) [.push y]).2 y rfl
    refine hne (Eq.trans ?_ hpeek)
    show x = VecMux.read ((start 1 x).push y).stack _
    rw [push_start_one]
    rfl
  refine ⟨?_, hsize⟩
  by_contra hpow
  rw [Bool.not_eq_true] at hpow
  have hlen : 2 < nras := by
    have hpos := NeZero.ne nras
    have htwo : nras ≠ 2 := by
      rintro rfl
      cases hpow
    omega
  have hideal : (ideal nras [.push y, .push y, .pop]).head? = some y := by
    obtain ⟨n, rfl⟩ : ∃ n, nras = n + 3 := ⟨nras - 3, by omega⟩
    rfl
  have hpeek := (hexact (start nras x) (isReset_start x) [.push y, .push y, .pop]).2 y hideal
  rw [run_start x y y hpow hlen, peek,
    VecMux.read_eq _ (⟨nras - 1, by omega⟩ : Fin nras)] at hpeek
  have hlast : nras - 1 ≠ 0 := by omega
  exact hne ((if_neg hlast).symm.trans hpeek)

/-- Six entries: two calls and a return. -/
theorem not_exact_six : ¬Exact (BitVec 43) 6 := by
  intro h
  have hpeek := (h (start 6 0) (isReset_start 0) [.push 8, .push 16, .pop]).2 8 rfl
  exact absurd hpeek (by decide)

/-- Two entries are enough for a power of two. -/
theorem exact_iff_isPow2_two : Exact (BitVec 43) 2 ↔ isPow2 2 = true ∧ 2 ≠ 1 :=
  haveI : Nontrivial (BitVec 43) := ⟨0, 1, by decide⟩
  exact_iff_isPow2 (BitVec 43) 2

end RAS

end RiscvSoc
