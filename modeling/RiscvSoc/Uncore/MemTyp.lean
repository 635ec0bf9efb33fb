import Mathlib.Data.BitVec

/-!
# The sizes of memory accesses

The `MT_` constants of `uncore/src/main/scala/consts.scala`, and which bytes of a double word an
access of each size touches. The low bits of an address that its size does not allow are ignored,
as the cache ignores them. For an aligned address the bytes are those from the address on
(`MemTyp.offset_of_aligned`).
-/

namespace RiscvSoc

/-- `MT_B` to `MT_WU`; `x` is `MSK_X`. -/
inductive MemTyp
  | b
  | h
  | w
  | d
  | bu
  | hu
  | wu
  | x
  deriving DecidableEq, Repr

abbrev Word : Type := BitVec 64

namespace MemTyp

/-- The bytes of an access. -/
def size : MemTyp → ℕ
  | .b | .bu => 1
  | .h | .hu => 2
  | .w | .wu => 4
  | .d | .x => 8

/-- The first byte of an access within its double word. -/
def offset (typ : MemTyp) (addr : Word) : ℕ := addr.toNat % 8 / typ.size * typ.size

/-- What a load makes of the bytes it reads. -/
def extend : (typ : MemTyp) → BitVec (8 * typ.size) → Word
  | .b, v | .h, v | .w, v | .d, v => v.signExtend 64
  | .bu, v | .hu, v | .wu, v | .x, v => v.setWidth 64

theorem size_pos (typ : MemTyp) : 0 < typ.size := by
  cases typ <;> decide

theorem offset_add_size_le (typ : MemTyp) (addr : Word) : typ.offset addr + typ.size ≤ 8 := by
  cases typ <;> simp only [offset, size] <;> omega

theorem offset_of_aligned {typ : MemTyp} {addr : Word} (h : addr.toNat % typ.size = 0) :
    typ.offset addr = addr.toNat % 8 := by
  cases typ <;> simp only [offset, size] at h ⊢ <;> omega

/-- Accesses of one size that share a byte share them all. -/
theorem offset_eq {typ : MemTyp} {a b : Word} {x : ℕ}
    (ha : typ.offset a ≤ x ∧ x < typ.offset a + typ.size)
    (hb : typ.offset b ≤ x ∧ x < typ.offset b + typ.size) : typ.offset a = typ.offset b := by
  cases typ <;> simp only [offset, size] at ha hb ⊢ <;> omega

end MemTyp

/-- `GenByteMask`, from the position in the double word. -/
def maskAt (r : ℕ) : MemTyp → BitVec 8
  | .b | .bu => 1#8 <<< r
  | .h | .hu => 3#8 <<< (2 * (r / 2))
  | .w | .wu => if 4 ≤ r then 240#8 else 15#8
  | .d | .x => 255#8

theorem getLsbD_maskAt : ∀ r < 8, ∀ b < 8, ∀ typ : MemTyp, (maskAt r typ).getLsbD b
    = decide (r / typ.size * typ.size ≤ b ∧ b < r / typ.size * typ.size + typ.size) := by
  intro r hr b hb typ
  revert r b
  cases typ <;> decide +kernel

end RiscvSoc
