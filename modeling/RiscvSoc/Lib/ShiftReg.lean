import RiscvSoc.Lib.Bits

/-!
# Words in pieces

A word that is too wide for a link is sent in chunks, the low one first. The sender shifts the word
down, and the receiver shifts the chunks in from the top. If the word has fewer chunks than the
receiver's register, it ends up in the upper part of the register, above what was there before.
-/

namespace RiscvSoc

open Bits

variable {w n buf x m : ℕ}

/-! ### Chunks -/

/-- The `k`th chunk of a word. -/
def chunk (w x k : ℕ) : ℕ := x / 2 ^ (k * w) % 2 ^ w

/-- How many chunks a word of `bits` bits has. -/
def chunks (w bits : ℕ) : ℕ := (bits + w - 1) / w

theorem chunk_lt {k : ℕ} : chunk w x k < 2 ^ w := Nat.mod_lt _ (Nat.two_pow_pos _)

theorem mod_succ_chunk (m : ℕ) :
    x % 2 ^ ((m + 1) * w) = x % 2 ^ (m * w) + chunk w x m * 2 ^ (m * w) := by
  rw [Nat.succ_mul, pow_add, Nat.mod_mul, chunk, Nat.mul_comm (2 ^ (m * w))]

theorem chunks_eq {bits : ℕ} (hw : 0 < w) (hbits : 0 < bits) :
    chunks w bits = (bits - 1) / w + 1 := by
  rw [chunks, show bits + w - 1 = bits - 1 + w by omega, Nat.add_div_right _ hw]

theorem le_chunks {bits : ℕ} (hw : 0 < w) : bits ≤ chunks w bits * w := by
  have hdiv := Nat.div_add_mod (bits + w - 1) w
  have hmod := Nat.mod_lt (bits + w - 1) hw
  rw [chunks, Nat.mul_comm]
  omega

theorem chunks_mono {a b : ℕ} (h : a ≤ b) : chunks w a ≤ chunks w b :=
  Nat.div_le_div_right (by omega)

/-! ### The shift register -/

/-- `Cat(b, buf(n * w - 1, w))`. -/
def shiftIn (w n buf b : ℕ) : ℕ := cat b ((n - 1) * w) (bits buf (n * w - 1) w)

/-- The first `m` chunks of `x` are in the register. -/
structure ShiftedIn (w n buf x m : ℕ) : Prop where
  lt : buf < 2 ^ (n * w)
  top : buf / 2 ^ ((n - m) * w) = x % 2 ^ (m * w)

theorem ShiftedIn.zero (h : buf < 2 ^ (n * w)) : ShiftedIn w n buf x 0 := by
  refine ⟨h, ?_⟩
  rw [Nat.sub_zero, Nat.div_eq_of_lt h, Nat.zero_mul, pow_zero, Nat.mod_one]

theorem ShiftedIn.first (hn : 0 < n) :
    ShiftedIn w n (chunk w x 0 * 2 ^ ((n - 1) * w)) x 1 := by
  have hsplit : n * w = w + (n - 1) * w := by
    rw [Nat.add_comm, ← Nat.succ_mul, Nat.succ_eq_add_one, Nat.sub_add_cancel hn]
  refine ⟨?_, ?_⟩
  · rw [hsplit, pow_add]
    exact Nat.mul_lt_mul_of_pos_right chunk_lt (Nat.two_pow_pos _)
  · rw [Nat.mul_div_cancel _ (Nat.two_pow_pos _), chunk, Nat.zero_mul, pow_zero, Nat.div_one,
      Nat.one_mul]

variable {b : ℕ}

theorem shiftIn_eq (hw : 0 < w) (hn : 0 < n) (h : buf < 2 ^ (n * w)) :
    shiftIn w n buf b = b * 2 ^ ((n - 1) * w) + buf / 2 ^ w := by
  have hpos : 0 < n * w := Nat.mul_pos hn hw
  rw [shiftIn, cat, bits_of_lt (by rwa [Nat.sub_add_cancel hpos])]

theorem shiftIn_lt (hw : 0 < w) (hn : 0 < n) (h : buf < 2 ^ (n * w)) (hb : b < 2 ^ w) :
    shiftIn w n buf b < 2 ^ (n * w) := by
  have hsplit : n * w = w + (n - 1) * w := by
    rw [Nat.add_comm, ← Nat.succ_mul, Nat.succ_eq_add_one, Nat.sub_add_cancel hn]
  rw [shiftIn_eq hw hn h, hsplit]
  refine cat_lt hb (Nat.div_lt_of_lt_mul ?_)
  rwa [← pow_add, ← hsplit]

/-- **One more chunk.** -/
theorem ShiftedIn.next (hw : 0 < w) (hm : m < n) (h : ShiftedIn w n buf x m) :
    ShiftedIn w n (shiftIn w n buf (chunk w x m)) x (m + 1) := by
  have hn : 0 < n := by omega
  refine ⟨shiftIn_lt hw hn h.lt chunk_lt, ?_⟩
  obtain ⟨k, rfl⟩ : ∃ k, n = m + 1 + k := ⟨n - (m + 1), by omega⟩
  have hup : (m + 1 + k - 1) * w = m * w + k * w := by
    rw [show m + 1 + k - 1 = m + k by omega, Nat.add_mul]
  have htop := h.top
  rw [show m + 1 + k - m = k + 1 by omega, Nat.succ_mul, Nat.add_comm (k * w), pow_add,
    ← Nat.div_div_eq_div_mul] at htop
  rw [shiftIn_eq hw hn h.lt, show m + 1 + k - (m + 1) = k by omega, hup, pow_add, ← Nat.mul_assoc,
    Nat.add_comm, Nat.add_mul_div_right _ _ (Nat.two_pow_pos _), htop, mod_succ_chunk]

/-- **All chunks of the word have entered**: it is read back. -/
theorem ShiftedIn.read (h : ShiftedIn w n buf x m) (hx : x < 2 ^ (m * w)) :
    buf / 2 ^ ((n - m) * w) = x := by
  rw [h.top, Nat.mod_eq_of_lt hx]

/-! ### Words that are put together -/

/-- The first `m` chunks of a word. -/
def firstChunks (w x m : ℕ) : List ℕ := (List.range m).map (chunk w x)

theorem length_firstChunks : (firstChunks w x m).length = m := by
  rw [firstChunks, List.length_map, List.length_range]

theorem firstChunks_succ (w x m : ℕ) :
    firstChunks w x (m + 1) = firstChunks w x m ++ [chunk w x m] := by
  rw [firstChunks, List.range_succ, List.map_append]
  rfl

/-- The lowest chunk, and those of the word that is shifted down. -/
theorem firstChunks_cons (w x m : ℕ) :
    firstChunks w x (m + 1) = x % 2 ^ w :: firstChunks w (x / 2 ^ w) m := by
  have hchunk (k : ℕ) : chunk w x (k + 1) = chunk w (x / 2 ^ w) k := by
    rw [chunk, chunk, Nat.div_div_eq_div_mul, ← pow_add, Nat.succ_mul, Nat.add_comm]
  rw [firstChunks, List.range_succ_eq_map, List.map_cons, List.map_map, firstChunks]
  congr 1
  · rw [chunk, Nat.zero_mul, pow_zero, Nat.div_one]
  · exact List.map_congr_left fun k _ => hchunk k

theorem chunk_add_top (hx : x < 2 ^ (m * w)) (hb : b < 2 ^ w) :
    chunk w (x + b * 2 ^ (m * w)) m = b := by
  rw [chunk, Nat.add_mul_div_right _ _ (Nat.two_pow_pos _), Nat.div_eq_of_lt hx, Nat.zero_add,
    Nat.mod_eq_of_lt hb]

theorem firstChunks_add_top :
    firstChunks w (x + b * 2 ^ (m * w)) m = firstChunks w x m := by
  refine List.map_congr_left fun k hk => ?_
  obtain ⟨d, rfl⟩ := Nat.exists_eq_add_of_lt (List.mem_range.mp hk)
  have hsplit : b * 2 ^ ((k + d + 1) * w) = 2 ^ w * (b * 2 ^ (d * w)) * 2 ^ (k * w) := by
    rw [Nat.succ_mul, Nat.add_mul, pow_add, pow_add]
    ring
  rw [chunk, chunk, hsplit, Nat.add_mul_div_right _ _ (Nat.two_pow_pos _),
    Nat.add_mul_mod_self_left]

theorem ShiftedIn.push (hw : 0 < w) (hm : m < n) (h : ShiftedIn w n buf x m) (hx : x < 2 ^ (m * w))
    (hb : b < 2 ^ w) :
    ShiftedIn w n (shiftIn w n buf b) (x + b * 2 ^ (m * w)) (m + 1) := by
  have hsame : ShiftedIn w n buf (x + b * 2 ^ (m * w)) m := by
    refine ⟨h.lt, ?_⟩
    rw [Nat.add_mul_mod_self_right]
    exact h.top
  have hnext := hsame.next hw hm
  rwa [chunk_add_top hx hb] at hnext

theorem add_top_lt (hx : x < 2 ^ (m * w)) (hb : b < 2 ^ w) :
    x + b * 2 ^ (m * w) < 2 ^ ((m + 1) * w) := by
  have hlt := cat_lt hb hx
  rwa [cat, Nat.add_comm w, ← Nat.succ_mul, Nat.add_comm (b * _)] at hlt

end RiscvSoc
