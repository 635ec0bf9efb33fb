import RiscvSoc.Lib.Encoder
import RiscvSoc.Lib.Queue
import RiscvSoc.Lib.ShiftReg

/-!
# The host's registers

`Slave` shows the chip to a host that reads and writes words. Register 0 is the way to the
processors; register 1 shows a memory command when it is read, and takes a word of a refill when it
is written; register 2 shows the words of the data of a write. A beat of the memory port is several
words, the low one first.

Refills come without tags. `Slave` keeps the tags of the read commands in a queue, and the oldest
one goes with the beats of a refill until the refill is complete.

A read of register 1 takes the command from the chip in any case, but it shows it as valid only if
its tag has a place in the queue. A read command that comes when the queue is full is lost.
-/

namespace RiscvSoc

/-- The widths: a memory beat is `2 ^ logWords` words, a refill is `2 ^ logBeats` beats, and a
memory command fits into a word with two bits to spare. -/
structure SlaveConf where
  dw : ℕ
  logWords : ℕ
  logBeats : ℕ
  addrBits : ℕ
  tagBits : ℕ
  logWords_pos : 0 < logWords
  logBeats_pos : 0 < logBeats
  fits : addrBits + 2 ≤ dw

namespace Slave

/-- A command of the memory port. -/
structure MemReqCmd (c : SlaveConf) where
  addr : BitVec c.addrBits
  tag : BitVec c.tagBits
  rw : Bool
  deriving DecidableEq

end Slave

structure SlaveState (c : SlaveConf) where
  tagq : Queue (BitVec c.tagBits) 4
  inCount : ℕ
  rfCount : ℕ
  outCount : ℕ
  inReg : ℕ
  /-- The commands and the data that the chip offers, the one it shows first. -/
  reqCmd : List (Slave.MemReqCmd c)
  reqData : List ℕ

/-- The inputs of a cycle: the host's, and what the chip does in it. -/
structure SlaveIn (c : SlaveConf) where
  inValid : Bool
  inBits : BitVec c.dw
  outReady : Bool
  addr : BitVec 5
  hostInReady : Bool
  hostOutValid : Bool
  hostOutBits : ℕ
  respReady : Bool
  /-- What the ports show when nothing is offered. -/
  idleCmd : Slave.MemReqCmd c
  idleData : ℕ
  newCmds : List (Slave.MemReqCmd c)
  newData : List ℕ

namespace Slave

variable {c : SlaveConf} (s : SlaveState c) (i : SlaveIn c)

def words (c : SlaveConf) : ℕ := 2 ^ c.logWords

def beats (c : SlaveConf) : ℕ := 2 ^ c.logBeats

/-- The register: the low bits of the address. -/
def reg : ℕ := i.addr.toNat % 4

def wen (k : ℕ) : Bool := i.inValid && decide (reg i = k)

def ren (k : ℕ) : Bool := i.outReady && decide (reg i = k)

/-! ### The ports of the chip -/

/-- `mem.req_cmd` under its valid bit. -/
def cmd : Option (MemReqCmd c) := s.reqCmd.head?

def cmdTaken : Option (MemReqCmd c) := if ren i 1 then cmd s else none

def respData : ℕ := shiftIn c.dw (words c) s.inReg i.inBits.toNat

def respValid : Bool := wen i 1 && decide (s.inCount = words c - 1)

def respFire : Bool := respValid s i && i.respReady

/-- `mem.resp.bits.tag`, whatever the queue holds. -/
def respTag : BitVec c.tagBits := s.tagq.ram s.tagq.ptrs.deq

def tagqIn : QueueInput (BitVec c.tagBits) where
  enq := if ren i 1 then (cmd s).bind fun x => if x.rw then none else some x.tag else none
  deqReady := respFire s i && decide (s.rfCount = beats c - 1)

def dataTaken : Option ℕ :=
  if ren i 2 && decide (s.outCount = words c - 1) then s.reqData.head? else none

/-! ### The registers -/

def rdata (k : ℕ) : ℕ :=
  match k with
  | 0 => Bits.cat i.hostOutBits 1 i.hostOutValid.toNat
  | 1 =>
    let bits := (cmd s).getD i.idleCmd
    Bits.cat (Bits.cat bits.addr.toNat 1 bits.rw.toNat) 1
      ((cmd s).isSome && (s.tagq.enqReady false (tagqIn s i) || bits.rw)).toNat
  | 2 => s.reqData.head?.getD i.idleData / 2 ^ (s.outCount * c.dw)
  | _ => Bits.cat (cmd s).isSome.toNat 1 (s.tagq.enqReady false (tagqIn s i)).toNat

def rvalid (k : ℕ) : Bool :=
  match k with
  | 2 => !s.reqData.isEmpty
  | _ => true

def wready (k : ℕ) : Bool :=
  match k with
  | 0 => i.hostInReady
  | 1 => i.respReady
  | _ => true

def inReady : Bool := wready i (reg i)

def outValid : Bool := rvalid s (reg i)

def outBits : ℕ := rdata s i (reg i) % 2 ^ c.dw

/-! ### One cycle -/

def next : SlaveState c where
  tagq := s.tagq.next false false (tagqIn s i)
  inCount := if wen i 1 && wready i 1 then (s.inCount + 1) % words c else s.inCount
  rfCount := if respFire s i then (s.rfCount + 1) % beats c else s.rfCount
  outCount := if ren i 2 && rvalid s 2 then (s.outCount + 1) % words c else s.outCount
  inReg := if wen i 1 && wready i 1 then respData s i else s.inReg
  reqCmd := (if ren i 1 then s.reqCmd.tail else s.reqCmd) ++ i.newCmds
  reqData :=
    (if ren i 2 && decide (s.outCount = words c - 1) then s.reqData.tail else s.reqData) ++
      i.newData

/-- The counters and the queue are reset. -/
structure IsReset : Prop where
  tagq : s.tagq.IsReset
  inCount : s.inCount = 0
  rfCount : s.rfCount = 0
  outCount : s.outCount = 0
  inReg_lt : s.inReg < 2 ^ (words c * c.dw)

/-- No read command is taken while the queue of tags is full. -/
def HasRoom : Prop :=
  ∀ x ∈ cmdTaken s i, x.rw = false → s.tagq.enqReady false (tagqIn s i) = true

instance decidableHasRoom : Decidable (HasRoom s i) :=
  inferInstanceAs (Decidable (∀ x ∈ cmdTaken s i, _))

end Slave

/-! ### Traffic -/

/-- What the chip gave and got, and what the host saw and wrote. -/
structure Traffic (c : SlaveConf) where
  taken : List (Slave.MemReqCmd c)
  shown : List (ℕ × Bool)
  beatsOut : List ℕ
  wordsRead : List ℕ
  wordsWritten : List ℕ
  beatsIn : List ℕ
  /-- The tags of the read commands that have no complete refill yet. -/
  waiting : List (BitVec c.tagBits)
  /-- The tags that went with the beats of refills, and the oldest ones that were waiting. -/
  answers : List (BitVec c.tagBits × Option (BitVec c.tagBits))

namespace Traffic

open Slave

variable {c : SlaveConf}

def empty : Traffic c := ⟨[], [], [], [], [], [], [], []⟩

/-- The traffic of one cycle. -/
def note (s : SlaveState c) (i : SlaveIn c) (g : Traffic c) : Traffic c where
  taken := g.taken ++ (cmdTaken s i).toList
  shown := g.shown ++
    if ren i 1 && (outBits s i).testBit 0 then [(outBits s i / 4, (outBits s i).testBit 1)] else []
  beatsOut := g.beatsOut ++ (dataTaken s i).toList
  wordsRead := g.wordsRead ++ if ren i 2 && outValid s i then [outBits s i] else []
  wordsWritten := g.wordsWritten ++ if wen i 1 && inReady i then [i.inBits.toNat] else []
  beatsIn := g.beatsIn ++ if respFire s i then [respData s i] else []
  waiting :=
    (if respFire s i && decide (g.beatsIn.length % beats c = beats c - 1) then g.waiting.tail
      else g.waiting) ++ ((cmdTaken s i).toList.filter fun x => !x.rw).map (·.tag)
  answers := g.answers ++ if respFire s i then [(respTag s, g.waiting.head?)] else []

/-- The words of a beat, the low one first. -/
def split (c : SlaveConf) (x : ℕ) : List ℕ := firstChunks c.dw x (words c)

/-- Nothing is lost: every command was shown, beats and words are the same up to a beat that is not
complete, and refills went with the oldest tag. -/
structure Faithful (s : SlaveState c) (g : Traffic c) : Prop where
  shown : g.shown = g.taken.map fun x => (x.addr.toNat, x.rw)
  read : ∃ k < words c, ∃ x, (0 < k → s.reqData.head? = some x) ∧
    g.wordsRead = g.beatsOut.flatMap (split c) ++ firstChunks c.dw x k
  written : ∃ l, l.length < words c ∧ g.wordsWritten = g.beatsIn.flatMap (split c) ++ l
  answers : ∀ a ∈ g.answers, ∀ tag, a.2 = some tag → a.1 = tag

end Traffic

/-- The registers, with their traffic. -/
def Slave.machine (c : SlaveConf) : Machine (SlaveState c × Traffic c) (SlaveIn c) :=
  (Machine.clocked Slave.IsReset Slave.next).observe Traffic.empty Traffic.note

/-! ### What every cycle keeps -/

namespace Slave

open Traffic

variable {c : SlaveConf} {s : SlaveState c} {i : SlaveIn c} {g : Traffic c}

/-- The registers, in terms of the traffic. -/
structure Inv (s : SlaveState c) (g : Traffic c) : Prop where
  shown : g.shown = g.taken.map fun x => (x.addr.toNat, x.rw)
  outCount_lt : s.outCount < words c
  read : ∃ x, (0 < s.outCount → s.reqData.head? = some x) ∧
    g.wordsRead = g.beatsOut.flatMap (split c) ++ firstChunks c.dw x s.outCount
  inCount_lt : s.inCount < words c
  written : ∃ x < 2 ^ (s.inCount * c.dw), ShiftedIn c.dw (words c) s.inReg x s.inCount ∧
    g.wordsWritten = g.beatsIn.flatMap (split c) ++ firstChunks c.dw x s.inCount
  rfCount : s.rfCount = g.beatsIn.length % beats c
  waiting : s.tagq.held = g.waiting
  answers : ∀ a ∈ g.answers, ∀ tag, a.2 = some tag → a.1 = tag

theorem dw_pos (c : SlaveConf) : 0 < c.dw := by
  have hfits := c.fits
  omega

theorem words_pos (c : SlaveConf) : 0 < words c := Nat.two_pow_pos _

theorem ren_eq {k : ℕ} (h : ren i k = true) : reg i = k :=
  of_decide_eq_true (Bool.and_eq_true_iff.mp h).2

theorem wen_eq {k : ℕ} (h : wen i k = true) : reg i = k :=
  of_decide_eq_true (Bool.and_eq_true_iff.mp h).2

theorem Inv.init (h : IsReset s) : Inv s .empty := by
  refine ⟨rfl, ?_, ⟨0, ?_, ?_⟩, ?_, ⟨0, ?_, ?_, ?_⟩, ?_, h.tagq.held, ?_⟩
  · rw [h.outCount]
    exact words_pos c
  · rw [h.outCount]
    exact fun hlt => absurd hlt (lt_irrefl 0)
  · rw [h.outCount]
    rfl
  · rw [h.inCount]
    exact words_pos c
  · exact Nat.two_pow_pos _
  · rw [h.inCount]
    exact ShiftedIn.zero h.inReg_lt
  · rw [h.inCount]
    rfl
  · rw [h.rfCount]
    exact (Nat.zero_mod _).symm
  · intro a ha
    exact absurd ha List.not_mem_nil

theorem cat_flags (a : ℕ) (p q : Bool) :
    Bits.cat (Bits.cat a 1 p.toNat) 1 q.toNat / 4 = a ∧
      (Bits.cat (Bits.cat a 1 p.toNat) 1 q.toNat).testBit 1 = p ∧
      (Bits.cat (Bits.cat a 1 p.toNat) 1 q.toNat).testBit 0 = q := by
  rw [Nat.testBit_eq_decide_div_mod_eq, Nat.testBit_eq_decide_div_mod_eq, Bits.cat, Bits.cat]
  cases p <;> cases q <;> simp <;> omega

theorem outBits_one (hreg : reg i = 1) :
    outBits s i / 4 = ((cmd s).getD i.idleCmd).addr.toNat ∧
      (outBits s i).testBit 1 = ((cmd s).getD i.idleCmd).rw ∧
      (outBits s i).testBit 0 = ((cmd s).isSome &&
        (s.tagq.enqReady false (tagqIn s i) || ((cmd s).getD i.idleCmd).rw)) := by
  have hbits : outBits s i = Bits.cat (Bits.cat ((cmd s).getD i.idleCmd).addr.toNat 1
      ((cmd s).getD i.idleCmd).rw.toNat) 1 ((cmd s).isSome &&
        (s.tagq.enqReady false (tagqIn s i) || ((cmd s).getD i.idleCmd).rw)).toNat := by
    rw [outBits, hreg, rdata]
    refine Nat.mod_eq_of_lt ((Bits.cat_lt (Bits.cat_lt (BitVec.isLt _) ?_) ?_).trans_le
      (Nat.pow_le_pow_right two_pos c.fits)) <;> exact Bool.toNat_lt _
  rw [hbits]
  exact cat_flags _ _ _

theorem shown_step (h : Inv s g) (hroom : HasRoom s i) :
    (note s i g).shown = (note s i g).taken.map fun x => (x.addr.toNat, x.rw) := by
  rw [note, List.map_append, ← h.shown]
  refine congrArg (g.shown ++ ·) ?_
  cases hren : ren i 1 with
  | false =>
    rw [cmdTaken, hren]
    rfl
  | true =>
    obtain ⟨haddr, hrw, hvalid⟩ := outBits_one (s := s) (ren_eq hren)
    rw [hvalid, haddr, hrw, Bool.true_and, cmdTaken, hren, if_pos rfl]
    cases hcmd : cmd s with
    | none => rfl
    | some x =>
      have hready : (s.tagq.enqReady false (tagqIn s i) || x.rw) = true := by
        cases hx : x.rw with
        | true => exact Bool.or_true _
        | false =>
          rw [Bool.or_false]
          refine hroom x ?_ hx
          rw [cmdTaken, hren, if_pos rfl, hcmd]
          rfl
      rw [Option.getD_some, hready]
      rfl

/-- A read of register 2 shows the next word of the beat that is offered. -/
theorem outBits_two (hreg : reg i = 2) {x : ℕ} (hx : s.reqData.head? = some x) :
    outBits s i = chunk c.dw x s.outCount := by
  rw [outBits, hreg, rdata, hx]
  rfl

theorem read_step (h : Inv s g) : (next s i).outCount < words c ∧
    ∃ x, (0 < (next s i).outCount → (next s i).reqData.head? = some x) ∧
      (note s i g).wordsRead = (note s i g).beatsOut.flatMap (split c) ++
        firstChunks c.dw x (next s i).outCount := by
  obtain ⟨x, hx, hread⟩ := h.read
  have hlt := h.outCount_lt
  have hdata : (next s i).reqData = (if ren i 2 && decide (s.outCount = words c - 1) then
    s.reqData.tail else s.reqData) ++ i.newData := rfl
  have hcount : (next s i).outCount =
    if ren i 2 && rvalid s 2 then (s.outCount + 1) % words c else s.outCount := rfl
  have hwords : (note s i g).wordsRead =
    g.wordsRead ++ if ren i 2 && rvalid s (reg i) then [outBits s i] else [] := rfl
  have hbeats : (note s i g).beatsOut = g.beatsOut ++
    (if ren i 2 && decide (s.outCount = words c - 1) then s.reqData.head? else none).toList := rfl
  rw [hcount, hdata, hwords, hbeats]
  cases hren : ren i 2 with
  | false =>
    simp only [Bool.false_and, Bool.false_eq_true, if_false, Option.toList_none, List.append_nil]
    refine ⟨hlt, x, ?_, hread⟩
    intro hpos
    rw [List.head?_append, hx hpos]
    rfl
  | true =>
    rw [ren_eq hren]
    cases hlist : s.reqData with
    | nil =>
      have hempty : rvalid s 2 = false := by
        rw [rvalid, hlist]
        rfl
      have hzero : s.outCount = 0 := by
        by_contra hne
        have hsome := hx (Nat.pos_of_ne_zero hne)
        rw [hlist] at hsome
        exact absurd hsome.symm (Option.some_ne_none x)
      rw [hempty, hread, hzero]
      refine ⟨words_pos c, x, fun hpos => absurd hpos (lt_irrefl 0), ?_⟩
      simp
    | cons y rest =>
      have hvalid : rvalid s 2 = true := by
        rw [rvalid, hlist]
        rfl
      have hhead : s.reqData.head? = some y := by
        rw [hlist]
        rfl
      have hread' : g.wordsRead =
          g.beatsOut.flatMap (split c) ++ firstChunks c.dw y s.outCount := by
        rcases Nat.eq_zero_or_pos s.outCount with hzero | hpos
        · rw [hread, hzero]
          rfl
        · have hsame : x = y := Option.some_injective _ ((hx hpos).symm.trans hhead)
          rw [hread, hsame]
      rw [hvalid, outBits_two (ren_eq hren) hhead, hread', Bool.true_and, if_pos rfl,
        if_pos rfl, Bool.true_and, List.append_assoc, ← firstChunks_succ]
      by_cases hlast : s.outCount = words c - 1
      · have hfull : s.outCount + 1 = words c := by
          have hpos := words_pos c
          omega
        rw [hfull, Nat.mod_self, decide_eq_true hlast, if_pos rfl]
        refine ⟨words_pos c, 0, fun hpos => absurd hpos (lt_irrefl 0), ?_⟩
        simp [firstChunks, split]
      · have hmore : s.outCount + 1 < words c := by omega
        rw [Nat.mod_eq_of_lt hmore, decide_eq_false hlast, if_neg (by simp),
          if_neg (by simp), Option.toList_none, List.append_nil]
        exact ⟨hmore, y, fun _ => rfl, rfl⟩

theorem written_step (h : Inv s g) : (next s i).inCount < words c ∧
    ∃ x < 2 ^ ((next s i).inCount * c.dw),
      ShiftedIn c.dw (words c) (next s i).inReg x (next s i).inCount ∧
      (note s i g).wordsWritten = (note s i g).beatsIn.flatMap (split c) ++
        firstChunks c.dw x (next s i).inCount := by
  obtain ⟨x, hx, hin, hwritten⟩ := h.written
  have hlt := h.inCount_lt
  have hcount : (next s i).inCount =
    if wen i 1 && i.respReady then (s.inCount + 1) % words c else s.inCount := rfl
  have hreg : (next s i).inReg = if wen i 1 && i.respReady then respData s i else s.inReg := rfl
  have hwords : (note s i g).wordsWritten =
    g.wordsWritten ++ if wen i 1 && wready i (reg i) then [i.inBits.toNat] else [] := rfl
  have hbeats : (note s i g).beatsIn = g.beatsIn ++
    if wen i 1 && decide (s.inCount = words c - 1) && i.respReady then [respData s i] else [] := rfl
  rw [hcount, hreg, hwords, hbeats]
  cases hwen : wen i 1 with
  | false =>
    simp only [Bool.false_and, Bool.false_eq_true, if_false, List.append_nil]
    exact ⟨hlt, x, hx, hin, hwritten⟩
  | true =>
    rw [wen_eq hwen, wready]
    cases hready : i.respReady with
    | false =>
      simp only [Bool.and_false, Bool.false_eq_true, if_false, List.append_nil]
      exact ⟨hlt, x, hx, hin, hwritten⟩
    | true =>
      have hb : i.inBits.toNat < 2 ^ c.dw := i.inBits.isLt
      have hpush : ShiftedIn c.dw (words c) (respData s i)
          (x + i.inBits.toNat * 2 ^ (s.inCount * c.dw)) (s.inCount + 1) :=
        hin.push (dw_pos c) hlt hx hb
      have hpush_lt : x + i.inBits.toNat * 2 ^ (s.inCount * c.dw) < 2 ^ ((s.inCount + 1) * c.dw) :=
        add_top_lt hx hb
      have hlist : firstChunks c.dw x s.inCount ++ [i.inBits.toNat] =
          firstChunks c.dw (x + i.inBits.toNat * 2 ^ (s.inCount * c.dw)) (s.inCount + 1) := by
        rw [firstChunks_succ, firstChunks_add_top, chunk_add_top hx hb]
      simp only [Bool.and_true, Bool.true_and, if_true]
      rw [hwritten, List.append_assoc, hlist]
      by_cases hlast : s.inCount = words c - 1
      · have hfull : s.inCount + 1 = words c := by
          have hpos := words_pos c
          omega
        rw [hfull] at hpush hpush_lt hlist ⊢
        have hread := hpush.read hpush_lt
        rw [Nat.sub_self, Nat.zero_mul, pow_zero, Nat.div_one] at hread
        rw [Nat.mod_self, decide_eq_true hlast, if_pos rfl, ← hread]
        refine ⟨words_pos c, 0, Nat.two_pow_pos _, ShiftedIn.zero hpush.lt, ?_⟩
        simp [firstChunks, split]
      · have hmore : s.inCount + 1 < words c := by omega
        rw [Nat.mod_eq_of_lt hmore, decide_eq_false hlast, if_neg (by simp),
          List.append_nil]
        exact ⟨hmore, _, hpush_lt, hpush, rfl⟩

theorem rfCount_step (h : Inv s g) :
    (next s i).rfCount = (note s i g).beatsIn.length % beats c := by
  have hcount : (next s i).rfCount =
    if respFire s i then (s.rfCount + 1) % beats c else s.rfCount := rfl
  have hbeats : (note s i g).beatsIn =
    g.beatsIn ++ if respFire s i then [respData s i] else [] := rfl
  rw [hcount, hbeats, h.rfCount]
  cases respFire s i with
  | false => rw [if_neg (by simp), if_neg (by simp), List.append_nil]
  | true => rw [if_pos rfl, if_pos rfl, List.length_append, List.length_singleton, Nat.mod_add_mod]

theorem entered_eq (hroom : HasRoom s i) : s.tagq.entered false (tagqIn s i) =
    ((cmdTaken s i).toList.filter fun x => !x.rw).map (·.tag) := by
  have henq : (tagqIn s i).enq =
      (cmdTaken s i).bind fun x => if x.rw then none else some x.tag := by
    rw [tagqIn, cmdTaken]
    cases ren i 1 <;> rfl
  rw [Queue.entered, henq]
  cases hcmd : cmdTaken s i with
  | none => exact ite_self []
  | some x =>
    cases hrw : x.rw with
    | true => simp [hrw]
    | false =>
      rw [hroom x hcmd hrw]
      simp [hrw]

theorem deq_eq (h : Inv s g) : s.tagq.deq false (tagqIn s i) = g.waiting.head? := by
  rw [Queue.deq_eq_head, h.waiting, if_neg (by simp), List.append_nil]

theorem waiting_step (h : Inv s g) (hroom : HasRoom s i) :
    (next s i).tagq.held = (note s i g).waiting := by
  have hstep : FifoStep s.tagq.held (s.tagq.entered false (tagqIn s i))
      (s.tagq.left false (tagqIn s i)) (next s i).tagq.held := Queue.step
  have hwaiting : (note s i g).waiting =
      (if respFire s i && decide (g.beatsIn.length % beats c = beats c - 1) then g.waiting.tail
        else g.waiting) ++ ((cmdTaken s i).toList.filter fun x => !x.rw).map (·.tag) := rfl
  have hready : (tagqIn s i).deqReady =
      (respFire s i && decide (g.beatsIn.length % beats c = beats c - 1)) := by
    rw [← h.rfCount]
    rfl
  rw [FifoStep, h.waiting, entered_eq hroom, Queue.left, deq_eq h, hready] at hstep
  rw [hwaiting]
  cases hdone : (respFire s i && decide (g.beatsIn.length % beats c = beats c - 1)) with
  | false =>
    rw [hdone, if_neg (by simp)] at hstep
    exact hstep.symm
  | true =>
    rw [hdone, if_pos rfl] at hstep
    rw [if_pos rfl]
    cases hlist : g.waiting with
    | nil =>
      rw [hlist] at hstep
      exact hstep.symm
    | cons tag rest =>
      rw [hlist] at hstep
      exact (List.cons.inj hstep).2.symm

theorem answers_step (h : Inv s g) :
    ∀ a ∈ (note s i g).answers, ∀ tag, a.2 = some tag → a.1 = tag := by
  have hanswers : (note s i g).answers =
      g.answers ++ if respFire s i then [(respTag s, g.waiting.head?)] else [] := rfl
  intro a ha tag htag
  rw [hanswers, List.mem_append] at ha
  rcases ha with hold | hnew
  · exact h.answers a hold tag htag
  · split at hnew
    · rw [List.mem_singleton] at hnew
      subst hnew
      have htag' : g.waiting.head? = some tag := htag
      have hdeq := deq_eq (i := i) h
      rw [htag'] at hdeq
      cases hempty : s.tagq.ptrs.empty with
      | true =>
        rw [Queue.deq_of_empty hempty] at hdeq
        exact absurd hdeq.symm (Option.some_ne_none tag)
      | false =>
        rw [Queue.deq_of_not_empty hempty] at hdeq
        exact Option.some_injective _ hdeq
    · exact absurd hnew List.not_mem_nil

/-- **One cycle in which there is room.** -/
theorem Inv.step (h : Inv s g) (hroom : HasRoom s i) : Inv (next s i) (note s i g) where
  shown := shown_step h hroom
  outCount_lt := (read_step h).1
  read := (read_step h).2
  inCount_lt := (written_step h).1
  written := (written_step h).2
  rfCount := rfCount_step h
  waiting := waiting_step h hroom
  answers := answers_step h

theorem Inv.faithful (h : Inv s g) : Faithful s g := by
  obtain ⟨x, hx, hread⟩ := h.read
  obtain ⟨y, -, -, hwritten⟩ := h.written
  refine ⟨h.shown, ⟨s.outCount, h.outCount_lt, x, hx, hread⟩, ⟨_, ?_, hwritten⟩, h.answers⟩
  rw [length_firstChunks]
  exact h.inCount_lt

end Slave

/-- **Nothing is lost while there is room.** In every run in which no read command is taken while
the queue of tags is full, the host saw every command that was taken, every beat was split or put
together in word order, and every beat of a refill went with the oldest tag that was waiting. -/
theorem slave_faithful (c : SlaveConf) (x : SlaveState c × Traffic c)
    (h : ((Slave.machine c).restrict fun x i => Slave.HasRoom x.1 i).Reachable x) :
    x.2.Faithful x.1 := by
  have hinv : Slave.Inv x.1 x.2 := by
    refine Machine.invariant (I := fun x => Slave.Inv x.1 x.2) ?_ ?_ x h
    · rintro ⟨s, g⟩ ⟨hs, rfl⟩
      exact Slave.Inv.init hs
    · rintro ⟨s, g⟩ i ⟨s', g'⟩ - hinv ⟨hroom, rfl, rfl⟩
      exact hinv.step hroom
  exact hinv.faithful

/-! ### Runs -/

namespace Slave

theorem two_words : 0 < 2 := two_pos

theorem addr_fits : 26 + 2 ≤ 32 := by decide

/-- The widths of the chip. -/
def conf : SlaveConf := ⟨32, 2, 2, 26, 5, two_words, two_words, addr_fits⟩

def reset : SlaveState conf := ⟨⟨⟨0, 0, false⟩, fun _ => 0⟩, 0, 0, 0, 0, [], []⟩

theorem isReset_reset : IsReset reset := ⟨rfl, rfl, rfl, rfl, Nat.two_pow_pos _⟩

theorem reachable_reset : (machine conf).Reachable (reset, .empty) :=
  .init ⟨isReset_reset, rfl⟩

theorem reachable_reset_restrict :
    ((machine conf).restrict fun x i => HasRoom x.1 i).Reachable (reset, .empty) :=
  .init ⟨isReset_reset, rfl⟩

/-- The chip offers commands, and the host does nothing. -/
def offer (l : List (MemReqCmd conf)) : SlaveIn conf :=
  ⟨false, 0, false, 0, false, false, 0, false, ⟨0, 0, false⟩, 0, l, []⟩

/-- The host reads register 1. -/
def readCmd : SlaveIn conf :=
  ⟨false, 0, true, 1, false, false, 0, false, ⟨0, 0, false⟩, 0, [], []⟩

/-- The chip offers a read, and a write of one beat. -/
def readAndWrite : SlaveIn conf :=
  { offer [⟨7, 3, false⟩, ⟨9, 4, true⟩] with newData := [1 + 2 ^ 33 + 3 * 2 ^ 64 + 2 ^ 98] }

/-- The host reads register 2. -/
def readWord : SlaveIn conf := { readCmd with addr := 2 }

/-- The host writes a word of a refill, and the chip is ready. -/
def writeWord (n : ℕ) : SlaveIn conf :=
  ⟨true, BitVec.ofNat 32 n, false, 1, false, false, 0, true, ⟨0, 0, false⟩, 0, [], []⟩

/-- The host reads both commands and the beat, and answers the read with four beats. -/
def oneOfEach : List (SlaveIn conf) :=
  [readAndWrite, readCmd, readCmd] ++ List.replicate 4 readWord ++ (List.range 16).map writeWord

def afterOneOfEach : SlaveState conf × Traffic conf :=
  Machine.cycles next Traffic.note oneOfEach (reset, .empty)

/-- The host reads five read commands before it answers one. -/
def fiveReads : List (SlaveIn conf) :=
  offer (List.replicate 5 ⟨7, 3, false⟩) :: List.replicate 5 readCmd

end Slave

/-- A read and a write: the words of the beat come in order, and every beat of the refill goes with
the tag of the read. -/
theorem slave_faithful_oneOfEach :
    Slave.afterOneOfEach.2.Faithful Slave.afterOneOfEach.1 ∧
    Slave.afterOneOfEach.2.wordsRead = [1, 2, 3, 4] ∧
    Slave.afterOneOfEach.2.answers = List.replicate 4 (3, some 3) ∧
    Slave.afterOneOfEach.2.waiting = [] := by
  have hfaithful : Slave.afterOneOfEach.2.Faithful Slave.afterOneOfEach.1 :=
    slave_faithful Slave.conf Slave.afterOneOfEach (Machine.reachable_restrict_cycles
      Slave.reachable_reset_restrict Slave.oneOfEach (by decide +kernel))
  exact ⟨hfaithful, by decide +kernel, by decide +kernel, by decide +kernel⟩

/-- **The fifth read command is lost.** It is taken from the chip, and the host sees nothing. -/
theorem slave_loses_command :
    ¬ ∀ x, (Slave.machine Slave.conf).Reachable x → x.2.Faithful x.1 := by
  intro hall
  have hfaithful := hall _ (Machine.reachable_cycles Slave.reachable_reset Slave.fiveReads)
  have hlength := congrArg List.length hfaithful.shown
  exact absurd hlength (by decide)

end RiscvSoc
