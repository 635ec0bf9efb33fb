import RiscvSoc.Boom.BranchPredict
import RiscvSoc.Boom.Rob

/-!
# The table of row addresses

`RobPCs` from `boom/src/main/scala/rob.scala`: the upper bits of the address of each row of the
reorder buffer. Even and odd rows are in a bank each, so that a row and the one behind it can be
read at once; that is why the number of rows is even.
-/

namespace RiscvSoc

variable {c : BOOMConf}

theorem BOOMConf.half_pos (c : BOOMConf) : 0 < c.numRobRows / 2 := by
  have := c.numRobRows_even
  have := c.numRobRows_pos
  omega

instance BOOMConf.neZero_half (c : BOOMConf) : NeZero (c.numRobRows / 2) := ⟨c.half_pos.ne'⟩

structure RobPCs (c : BOOMConf) where
  bank0 : Fin (c.numRobRows / 2) → BitVec 64
  bank1 : Fin (c.numRobRows / 2) → BitVec 64

namespace RobPCs

variable (s : RobPCs c)

/-- `row_idx >> UInt(1)`. -/
def half (r : RobRow c) : Fin (c.numRobRows / 2) :=
  ⟨r.val / 2, by
    have := r.isLt
    have := c.numRobRows_even
    omega⟩

/-- `row_idx(0)`. -/
def odd (r : RobRow c) : Bool := decide (r.val % 2 = 1)

/-- `pc_shift`. -/
abbrev pcShift (c : BOOMConf) : ℕ := fetchLsb c.decodeWidth

def read (r : RobRow c) : BitVec 64 :=
  (if odd r then s.bank1 (half r) else s.bank0 (half r)) <<< pcShift c

/-- The addresses of a row and of the next one. -/
def read2 (r : RobRow c) : BitVec 64 × BitVec 64 :=
  let data0 := s.bank0 (if odd r then half r + 1 else half r) <<< pcShift c
  let data1 := s.bank1 (half r) <<< pcShift c
  (if odd r then data1 else data0, if odd r then data0 else data1)

def write (r : RobRow c) (pc : BitVec 64) : RobPCs c :=
  if odd r then { s with bank1 := Function.update s.bank1 (half r) (pc >>> pcShift c) }
  else { s with bank0 := Function.update s.bank0 (half r) (pc >>> pcShift c) }

variable {s}

theorem val_succ {n : ℕ} [NeZero n] (r : Fin n) :
    (r + 1).val = if r.val + 1 = n then 0 else r.val + 1 := by
  have hr := r.isLt
  rw [Fin.val_add, Fin.val_one', Nat.add_mod_mod]
  split
  · rename_i h
    rw [h, Nat.mod_self]
  · exact Nat.mod_eq_of_lt (by omega)

theorem odd_succ (r : RobRow c) : odd (r + 1) = !odd r ∧
    half (r + 1) = if odd r then half r + 1 else half r := by
  have hr := r.isLt
  have heven := c.numRobRows_even
  have hpos := c.half_pos
  have hval := val_succ r
  have hhalf := val_succ (half r)
  constructor
  · simp only [odd, hval]
    split <;> by_cases h : r.val % 2 = 1 <;> simp [h] <;> omega
  · apply Fin.ext
    cases hodd : odd r with
    | true =>
      have : r.val % 2 = 1 := of_decide_eq_true hodd
      rw [if_pos rfl, hhalf]
      show (r + 1).val / 2 = if r.val / 2 + 1 = c.numRobRows / 2 then 0 else r.val / 2 + 1
      rw [hval]
      split_ifs <;> omega
    | false =>
      have : ¬r.val % 2 = 1 := of_decide_eq_false hodd
      rw [if_neg (by simp)]
      show (r + 1).val / 2 = r.val / 2
      rw [hval, if_neg (by omega)]
      omega

/-- **The second port reads a row and the next one.** -/
theorem read2_eq (r : RobRow c) : s.read2 r = (s.read r, s.read (r + 1)) := by
  obtain ⟨hodd, hhalf⟩ := odd_succ r
  rw [read2, read, read, hodd, hhalf]
  cases odd r <;> rfl

theorem row_ext {r r' : RobRow c} (hodd : odd r = odd r') (hhalf : half r = half r') : r = r' := by
  have h : r.val / 2 = r'.val / 2 := congrArg Fin.val hhalf
  rw [odd, odd, decide_eq_decide] at hodd
  exact Fin.ext (by omega)

theorem read_write {r r' : RobRow c} {pc : BitVec 64} : (s.write r pc).read r' =
    if r' = r then (pc >>> pcShift c) <<< pcShift c else s.read r' := by
  by_cases heq : r' = r
  · subst heq
    rw [if_pos rfl, write, read]
    cases odd r' <;> simp
  · rw [if_neg heq, write, read, read]
    cases hodd : odd r with
    | true =>
      cases hodd' : odd r' with
      | true =>
        have hne : half r' ≠ half r := fun h => heq (row_ext (hodd'.trans hodd.symm) h)
        simp [Function.update_of_ne hne]
      | false => rfl
    | false =>
      cases hodd' : odd r' with
      | true => rfl
      | false =>
        have hne : half r' ≠ half r := fun h => heq (row_ext (hodd'.trans hodd.symm) h)
        simp [Function.update_of_ne hne]

end RobPCs

end RiscvSoc
