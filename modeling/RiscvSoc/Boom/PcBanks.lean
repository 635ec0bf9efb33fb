import RiscvSoc.Lib.Bits
import RiscvSoc.Boom.RobPCs

/-!
# The table of row addresses, for any number of rows

`RobPCs` from `boom/src/main/scala/rob.scala` again, with the index arithmetic as it stands there:
`RobPCs.lean` counts rows and their halves modulo their number, and this file has `WrapInc`, which
for a power of two keeps the lower `log2Up` bits. Those are not the same for one entry, `log2Up(1)`
being one. So with two rows the second read port asks the only entry of bank 0 for its neighbour.

What comes back from an address a memory does not have is a parameter of the port. The addresses
written are those of fetch packets, whose low bits are zero (`aligned_fetch_pc` in `dpath.scala`);
the banks do not keep them.
-/

namespace RiscvSoc

/-! ### `WrapInc` -/

/-- `WrapInc`. -/
def wrapInc (value max : ℕ) : ℕ :=
  if isPow2 max then (value + 1) % 2 ^ Bits.log2Up max
  else if value = max - 1 then 0 else value + 1

theorem wrapInc_eq_mod {value max : ℕ} (h : value < max) (hmax : max ≠ 1) :
    wrapInc value max = (value + 1) % max := by
  rw [wrapInc]
  split
  · rename_i hpow
    obtain ⟨k, rfl⟩ := eq_two_pow_of_isPow2 hpow
    rw [Bits.log2Up, if_neg hmax, Nat.clog_pow 2 k Nat.one_lt_two]
  · split
    · rename_i hv
      rw [hv, Nat.sub_add_cancel (by omega), Nat.mod_self]
    · rw [Nat.mod_eq_of_lt (by omega)]

/-! ### The banks -/

/-- `pc_shift`. -/
def pcShift (width : ℕ) : ℕ := if width = 1 then 2 else Bits.log2Up width + 2

/-- The two banks of a table for `n` rows. -/
structure PcBanks (n : ℕ) where
  bank0 : Fin (n / 2) → BitVec 64
  bank1 : Fin (n / 2) → BitVec 64

/-- Reading a memory at an address it may not have. -/
def memRead {d : ℕ} (mem : Fin d → BitVec 64) (junk : BitVec 64) (addr : ℕ) : BitVec 64 :=
  if h : addr < d then mem ⟨addr, h⟩ else junk

/-- Writing a memory. -/
def memWrite {d : ℕ} (mem : Fin d → BitVec 64) (addr : ℕ) (data : BitVec 64) :
    Fin d → BitVec 64 :=
  fun a => if a.val = addr then data else mem a

namespace PcBanks

variable {n : ℕ}

section Ports

variable (width : ℕ) (junk : BitVec 64) (s : PcBanks n)

def read (rowIdx : ℕ) : BitVec 64 :=
  (if rowIdx % 2 = 1 then memRead s.bank1 junk (rowIdx / 2)
    else memRead s.bank0 junk (rowIdx / 2)) <<< pcShift width

/-- The addresses of a row and of the next one. -/
def read2 (rowIdx : ℕ) : BitVec 64 × BitVec 64 :=
  let addr0Ls1 := if rowIdx % 2 = 1 then wrapInc (rowIdx / 2) (n / 2) else rowIdx / 2
  let data0 := memRead s.bank0 junk addr0Ls1 <<< pcShift width
  let data1 := memRead s.bank1 junk (rowIdx / 2) <<< pcShift width
  (if rowIdx % 2 = 1 then data1 else data0, if rowIdx % 2 = 1 then data0 else data1)

def write (waddrRow : ℕ) (data : BitVec 64) : PcBanks n :=
  if waddrRow % 2 = 1 then
    { s with bank1 := memWrite s.bank1 (waddrRow / 2) (data >>> pcShift width) }
  else { s with bank0 := memWrite s.bank0 (waddrRow / 2) (data >>> pcShift width) }

/-- A sequence of row writes. -/
def run : List (Fin n × BitVec 64) → PcBanks n
  | [] => s
  | w :: ws => (run ws).write width w.1 w.2

end Ports

/-! ### What was written -/

/-- The address each row was given last, the latest write standing first. -/
def lastWritten : List (Fin n × BitVec 64) → Fin n → Option (BitVec 64)
  | [], _ => none
  | w :: ws, r => if r = w.1 then some w.2 else lastWritten ws r

/-- An address of a fetch packet. -/
def Aligned (width : ℕ) (pc : BitVec 64) : Prop := (pc >>> pcShift width) <<< pcShift width = pc

/-- The following row. -/
def nextRow (r : Fin n) : Fin n := ⟨(r.val + 1) % n, Nat.mod_lt _ r.pos⟩

/-- Both ports answer for a row what was written last, to it and to the following one. -/
def Answers (width : ℕ) (s : PcBanks n) (ws : List (Fin n × BitVec 64)) (r : Fin n) : Prop :=
  ∀ junk, (∀ pc, lastWritten ws r = some pc →
      (s.run width ws).read width junk r = pc ∧ ((s.run width ws).read2 width junk r).1 = pc) ∧
    ∀ pc, lastWritten ws (nextRow r) = some pc → ((s.run width ws).read2 width junk r).2 = pc

/-! ### The ports -/

section Lemmas

variable {width : ℕ} {junk : BitVec 64} {s : PcBanks n}

theorem memRead_memWrite {d a a' : ℕ} {mem : Fin d → BitVec 64} {data : BitVec 64} (ha : a' < d) :
    memRead (memWrite mem a data) junk a' = if a' = a then data else memRead mem junk a' := by
  rw [memRead, dif_pos ha, memRead, dif_pos ha, memWrite]

theorem read_write (heven : n % 2 = 0) (r w : Fin n) (pc : BitVec 64) :
    (s.write width w pc).read width junk r =
      if r = w then (pc >>> pcShift width) <<< pcShift width else s.read width junk r := by
  have hr : r.val / 2 < n / 2 := by omega
  have hrw : r = w ↔ r.val % 2 = w.val % 2 ∧ r.val / 2 = w.val / 2 := by
    rw [Fin.ext_iff]
    omega
  by_cases hw2 : w.val % 2 = 1
  · rw [write, if_pos hw2]
    by_cases hr2 : r.val % 2 = 1
    · rw [read, read, if_pos hr2, if_pos hr2, memRead_memWrite hr]
      by_cases h : r = w
      · rw [if_pos (hrw.1 h).2, if_pos h]
      · rw [if_neg fun hv => h (hrw.2 ⟨by omega, hv⟩), if_neg h]
    · have hne : r ≠ w := fun h => hr2 ((hrw.1 h).1.trans hw2)
      rw [read, read, if_neg hr2, if_neg hr2, if_neg hne]
  · rw [write, if_neg hw2]
    by_cases hr2 : r.val % 2 = 1
    · have hne : r ≠ w := fun h => hw2 ((hrw.1 h).1 ▸ hr2)
      rw [read, read, if_pos hr2, if_pos hr2, if_neg hne]
    · rw [read, read, if_neg hr2, if_neg hr2, memRead_memWrite hr]
      by_cases h : r = w
      · rw [if_pos (hrw.1 h).2, if_pos h]
      · rw [if_neg fun hv => h (hrw.2 ⟨by omega, hv⟩), if_neg h]

theorem read_run (heven : n % 2 = 0) {ws : List (Fin n × BitVec 64)}
    (haligned : ∀ w ∈ ws, Aligned width w.2) {r : Fin n} {pc : BitVec 64}
    (h : lastWritten ws r = some pc) : (s.run width ws).read width junk r = pc := by
  induction ws with
  | nil => cases h
  | cons w ws ih =>
    rw [run, read_write heven]
    rw [lastWritten] at h
    by_cases hrw : r = w.1
    · rw [if_pos hrw, Option.some.injEq] at h
      rw [if_pos hrw, ← h]
      exact haligned w List.mem_cons_self
    · rw [if_neg hrw] at h ⊢
      exact ih (fun w hw => haligned w (List.mem_cons_of_mem _ hw)) h

theorem read2_fst (r : ℕ) : (s.read2 width junk r).1 = s.read width junk r := by
  rw [read2, read]
  by_cases h : r % 2 = 1
  · simp only [if_pos h]
  · simp only [if_neg h]

/-- The second port reads the following row, unless that is across the end of a table of two. -/
theorem read2_snd (heven : n % 2 = 0) {r : Fin n} (h : ¬(n = 2 ∧ r.val = 1)) :
    (s.read2 width junk r).2 = s.read width junk (nextRow r) := by
  have hr := r.isLt
  have hval : (nextRow r).val = if r.val + 1 = n then 0 else r.val + 1 := by
    rw [nextRow]
    split
    · rename_i h
      exact (congrArg (· % n) h).trans (Nat.mod_self n)
    · exact Nat.mod_eq_of_lt (by omega)
  rw [read2, read]
  by_cases hodd : r.val % 2 = 1
  · have hwrap : wrapInc (r.val / 2) (n / 2) = (nextRow r).val / 2 := by
      rw [wrapInc_eq_mod (by omega) (by omega), hval]
      split
      · rw [show r.val / 2 + 1 = n / 2 by omega, Nat.mod_self]
      · rw [Nat.mod_eq_of_lt (by omega)]
        omega
    have hpar : ¬(nextRow r).val % 2 = 1 := by
      rw [hval]
      split <;> omega
    simp only [if_pos hodd, if_neg hpar, hwrap]
  · have hnext : (nextRow r).val = r.val + 1 := by
      rw [hval, if_neg (by omega)]
    simp only [if_neg hodd, hnext, if_pos (show (r.val + 1) % 2 = 1 by omega),
      show (r.val + 1) / 2 = r.val / 2 by omega]

/-- Across the end of a table of two the port reads an entry that bank 0 does not have. -/
theorem read2_snd_two {s : PcBanks 2} :
    (s.read2 width junk 1).2 = junk <<< pcShift width := rfl

end Lemmas

/-- For every even number of rows, every sequence of writes of packet addresses and every row, both
ports answer with what was written last exactly when the table does not have two rows, or the row is
the first, or that one was never written. -/
theorem answers_iff {width : ℕ} (heven : n % 2 = 0) (hwidth : pcShift width < 64) (s : PcBanks n)
    (ws : List (Fin n × BitVec 64)) (haligned : ∀ w ∈ ws, Aligned width w.2) (r : Fin n) :
    Answers width s ws r ↔ ¬(n = 2 ∧ r.val = 1 ∧ (lastWritten ws (nextRow r)).isSome) := by
  constructor
  · rintro h ⟨rfl, hr, hsome⟩
    obtain ⟨pc, hpc⟩ := Option.isSome_iff_exists.1 hsome
    -- Two values of the missing entry would both have to be the address.
    have hzero := (h 0).2 pc hpc
    have hone := (h 1).2 pc hpc
    rw [hr, read2_snd_two] at hzero hone
    have hshift : 0#64 <<< pcShift width = 1#64 <<< pcShift width := hzero.trans hone.symm
    have hbit := congrArg (fun x : BitVec 64 => x.getLsbD (pcShift width)) hshift
    simp [hwidth] at hbit
  · intro h junk
    refine ⟨fun pc hpc => ⟨read_run heven haligned hpc, ?_⟩, fun pc hpc => ?_⟩
    · rw [read2_fst]
      exact read_run heven haligned hpc
    · rw [read2_snd heven fun hr => h ⟨hr.1, hr.2, by rw [hpc]; rfl⟩]
      exact read_run heven haligned hpc

instance (width : ℕ) (pc : BitVec 64) : Decidable (Aligned width pc) :=
  inferInstanceAs (Decidable (_ = _))

/-- A table of four rows answers for its last one. -/
theorem answers_wrap : Answers 1 (n := 4) ⟨fun _ => 0, fun _ => 0⟩ [(3, 8), (0, 16), (3, 12)] 3 :=
  (answers_iff (by decide) (by decide) _ _ (by simp [Aligned, pcShift]) 3).2 (by decide)

/-- With two rows the address behind row 1 is not the one row 0 was given. -/
theorem not_answers_two : ¬Answers 1 (n := 2) ⟨fun _ => 0, fun _ => 0⟩ [(1, 8), (0, 4)] 1 :=
  fun h => absurd ((h 0).2 4 rfl) (by decide)

/-! ### The table of a configuration -/

section Configuration

variable {c : BOOMConf} (s : RobPCs c)

def ofRobPCs : PcBanks c.numRobRows := ⟨s.bank0, s.bank1⟩

theorem pcShift_eq : pcShift c.decodeWidth = RobPCs.pcShift c := by
  rcases c.decodeWidth_eq with h | h <;> rw [RobPCs.pcShift, h] <;> decide

theorem read_ofRobPCs (junk : BitVec 64) (r : RobRow c) :
    (ofRobPCs s).read c.decodeWidth junk r = s.read r := by
  have hr : r.val / 2 < c.numRobRows / 2 := (RobPCs.half r).isLt
  rw [read, RobPCs.read, pcShift_eq, RobPCs.odd]
  by_cases h : r.val % 2 = 1
  · rw [if_pos h, decide_eq_true h, memRead, dif_pos hr]
    rfl
  · rw [if_neg h, decide_eq_false h, memRead, dif_pos hr]
    rfl

/-- For more than two rows the table of the reorder buffer is this one. -/
theorem read2_ofRobPCs (hrows : c.numRobRows ≠ 2) (junk : BitVec 64) (r : RobRow c) :
    (ofRobPCs s).read2 c.decodeWidth junk r = s.read2 r := by
  have hnext : nextRow r = r + 1 := Fin.ext (by rw [nextRow, Fin.val_add, Fin.val_one',
    Nat.add_mod_mod])
  rw [RobPCs.read2_eq]
  refine Prod.ext ?_ ?_
  · rw [read2_fst, read_ofRobPCs]
  · rw [read2_snd c.numRobRows_even fun h => hrows h.1, read_ofRobPCs, hnext]

end Configuration

end PcBanks

end RiscvSoc
