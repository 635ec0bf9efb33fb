import RiscvSoc.Uncore.HTIFEdge

/-!
# What the interface does with a packet

From the header of a packet on, each state determines where the packet is: how many words came in,
how many lines were asked for, how many are finished, and how much of the reply has left. `Serving`
spells that out state by state, for every packet, well formed or not. Here it is taken through the
clock edges on the memory's side.

The data is followed only for a packet that is `Good`: a memory packet of whole lines, at least
one. A packet of no lines at all takes the position counter through every line there is, since the
counter is only compared after it was decremented.
-/

namespace RiscvSoc

open Bits

namespace HTIF

variable {c : HTIFConf}

/-! ### What a header asks for -/

def packetCmd (h : ℕ) : ℕ := bits h 3 0
def packetSize (h : ℕ) : ℕ := bits h 15 4
def packetSeqno (h : ℕ) : ℕ := bits h 23 16
def packetAddr (h : ℕ) : ℕ := bits h 63 24

def IsMem (h : ℕ) : Prop := packetCmd h = cmdReadmem ∨ packetCmd h = cmdWritemem
def IsCr (h : ℕ) : Prop := packetCmd h = cmdReadcr ∨ packetCmd h = cmdWritecr

instance (h : ℕ) : Decidable (IsMem h) := inferInstanceAs (Decidable (_ ∨ _))
instance (h : ℕ) : Decidable (IsCr h) := inferInstanceAs (Decidable (_ ∨ _))

/-- A packet that is answered with a nack. -/
def Malformed (c : HTIFConf) (h : ℕ) : Prop :=
  if IsMem h then
    packetSize h % 2 ^ c.lineBits ≠ 0 ∨ packetAddr h % 2 ^ c.lineBits ≠ 0
  else if IsCr h then packetSize h ≠ 1
  else True

instance (c : HTIFConf) (h : ℕ) : Decidable (Malformed c h) := by
  unfold Malformed
  infer_instance

/-- A memory packet of whole, aligned lines. -/
def WellFormed (c : HTIFConf) (h : ℕ) : Prop := IsMem h ∧ ¬Malformed c h

instance (c : HTIFConf) (h : ℕ) : Decidable (WellFormed c h) :=
  inferInstanceAs (Decidable (_ ∧ _))

/-- A memory packet of whole, aligned lines, at least one. -/
def Good (c : HTIFConf) (h : ℕ) : Prop := WellFormed c h ∧ packetSize h ≠ 0

/-- How many lines the position counter lets through. -/
def total (c : HTIFConf) (h : ℕ) : ℕ :=
  if bits h 15 (4 + c.lineBits) = 0 then 2 ^ (12 - c.lineBits) else bits h 15 (4 + c.lineBits)

/-- The `j`-th line from the packet's address on. -/
def lineAddr (c : HTIFConf) (h j : ℕ) : ℕ :=
  (packetAddr h / 2 ^ c.lineBits + j) % 2 ^ (40 - c.lineBits) % 2 ^ c.addrBits

/-- The size the reply announces. -/
def replySize (c : HTIFConf) (h : ℕ) : ℕ :=
  if ¬Malformed c h ∧ packetCmd h ≠ cmdWritemem then packetSize h else 0

def replyCmd (c : HTIFConf) (h : ℕ) : ℕ := if Malformed c h then cmdNack else cmdAck

/-- The address in the reply: by then a line was read, or every line written. -/
def replyAddr (c : HTIFConf) (h : ℕ) : ℕ :=
  if packetCmd h = cmdReadmem then (packetAddr h + 2 ^ c.lineBits * 1) % 2 ^ 40
  else if packetCmd h = cmdWritemem then (packetAddr h + 2 ^ c.lineBits * total c h) % 2 ^ 40
  else packetAddr h

def replyHeader (c : HTIFConf) (h : ℕ) : ℕ :=
  header (replyAddr c h) (packetSeqno h) (replySize c h) (replyCmd c h)

/-- Subword `n` of a reply whose data is `words`. -/
def replySubword (c : HTIFConf) (h : ℕ) (words : List ℕ) (n : ℕ) : ℕ :=
  subword c ((replyHeader c h :: words).getD (n / 2 ^ c.subBits) 0) (n % 2 ^ c.subBits)

/-- What an acquire asks for. -/
def requestOf (c : HTIFConf) (a : LineAcquire) : HTIFAcquireType × ℕ × List ℕ :=
  (a.aType, a.addr, match a.aType with
    | .uncachedRead => []
    | .uncachedWrite => (List.range c.packetRamDepth).map (lineWord a.data))

/-- What the `j`-th acquire of a packet should ask for. -/
def lineRequest (c : HTIFConf) (h : ℕ) (payload : List ℕ) (j : ℕ) :
    HTIFAcquireType × ℕ × List ℕ :=
  if packetCmd h = cmdWritemem then
    (.uncachedWrite, lineAddr c h j, (payload.drop (c.packetRamDepth * j)).take c.packetRamDepth)
  else (.uncachedRead, lineAddr c h j, [])

theorem packetRamDepth_pos (c : HTIFConf) : 0 < c.packetRamDepth := Nat.two_pow_pos _

theorem total_pos (c : HTIFConf) (h : ℕ) : 0 < total c h := by
  rw [total]
  split
  · exact Nat.two_pow_pos _
  · omega

theorem total_le (c : HTIFConf) (h : ℕ) : total c h ≤ 2 ^ (12 - c.lineBits) := by
  rw [total]
  split
  · exact le_rfl
  · have hlt := bits_lt h 15 (4 + c.lineBits)
    rw [show 15 + 1 - (4 + c.lineBits) = 12 - c.lineBits by omega] at hlt
    exact hlt.le

theorem packetRamDepth_mul_total_le (c : HTIFConf) (h : ℕ) :
    c.packetRamDepth * total c h ≤ 2 ^ 12 := by
  have hle := c.lineBits_lt
  calc c.packetRamDepth * total c h ≤ 2 ^ c.lineBits * 2 ^ (12 - c.lineBits) :=
        Nat.mul_le_mul_left _ (total_le c h)
    _ = 2 ^ 12 := by rw [← pow_add, Nat.add_sub_cancel' (by omega)]

/-- The size field is the number of lines, then the offset in a line. -/
theorem packetSize_div (c : HTIFConf) (h : ℕ) :
    packetSize h / 2 ^ c.lineBits = bits h 15 (4 + c.lineBits) := by
  have hlt := c.lineBits_lt
  rw [packetSize, bits, bits, show 15 + 1 - 4 = c.lineBits + (12 - c.lineBits) by omega, pow_add,
    Nat.mod_mul_right_div_self, Nat.div_div_eq_div_mul, ← pow_add,
    show 15 + 1 - (4 + c.lineBits) = 12 - c.lineBits by omega]

namespace Good

variable {h : ℕ}

theorem size_eq (hg : Good c h) : packetSize h = c.packetRamDepth * total c h := by
  obtain ⟨⟨hmem, hform⟩, hne⟩ := hg
  have hmod : packetSize h % 2 ^ c.lineBits = 0 := by
    rw [Malformed, if_pos hmem, not_or, not_not, not_not] at hform
    exact hform.1
  have hdiv := Nat.div_add_mod (packetSize h) (2 ^ c.lineBits)
  rw [hmod, Nat.add_zero, packetSize_div] at hdiv
  have hpos : bits h 15 (4 + c.lineBits) ≠ 0 := by
    intro hzero
    rw [hzero, Nat.mul_zero] at hdiv
    exact hne hdiv.symm
  rw [total, if_neg hpos]
  exact hdiv.symm

end Good

theorem pos_init (c : HTIFConf) (h : ℕ) :
    bits h 15 (4 + c.lineBits) = wrap (12 - c.lineBits) (total c h : ℤ) := by
  have hlt := bits_lt h 15 (4 + c.lineBits)
  rw [show 15 + 1 - (4 + c.lineBits) = 12 - c.lineBits by omega] at hlt
  rw [wrap_natCast, total]
  split
  · rw [Nat.mod_self]
    assumption
  · rw [Nat.mod_eq_of_lt hlt]

theorem pos_eq_one_iff {h k : ℕ} (hk : k < total c h) :
    wrap (12 - c.lineBits) ((total c h : ℤ) - k) = 1 ↔ k + 1 = total c h := by
  have hle := total_le c h
  have hone : 1 < 2 ^ (12 - c.lineBits) := Nat.one_lt_two_pow (by have := c.lineBits_lt; omega)
  rw [show ((total c h : ℤ) - k) = ((total c h - k : ℕ) : ℤ) by omega, wrap_natCast,
    mod_two_pow_eq_one_iff hone (by omega)]
  omega

/-- After a line the position counter reads zero if it was the last. -/
theorem pos_ne_zero_iff {h k : ℕ} (hpos : 0 < k) (hk : k ≤ total c h) :
    wrap (12 - c.lineBits) ((total c h : ℤ) - k) ≠ 0 ↔ k < total c h := by
  have hle := total_le c h
  rw [show ((total c h : ℤ) - k) = ((total c h - k : ℕ) : ℤ) by omega, wrap_natCast,
    Nat.mod_eq_of_lt (by omega)]
  omega

/-! ### The invariant -/

/-- The registers a header fills, and what a packet never does. -/
structure Packet (s : HTIF c) (g : PacketLog c) (h : ℕ) : Prop where
  header : g.header = some h
  cmd : s.cmd = packetCmd h
  size : s.size = packetSize h
  seqno : s.seqno = packetSeqno h
  addr : s.addr = (packetAddr h + 2 ^ c.lineBits * g.lines) % 2 ^ 40
  pos : s.pos = wrap (12 - c.lineBits) ((total c h : ℤ) - g.lines)
  noMem : ¬IsMem h → g.lines = 0 ∧ g.acquires = []
  noCr : ¬IsCr h → g.accesses = []
  noRead : packetCmd h ≠ cmdReadmem → g.readWords = []
  word : s.state ≠ .rx → g.word = []
  payload : ∀ x ∈ g.payload, x < 2 ^ 64

/-- `k` lines were asked for, the right ones. -/
def AcquiresOk (c : HTIFConf) (h : ℕ) (g : PacketLog c) (k : ℕ) : Prop :=
  g.acquires.length = k ∧
    (Good c h → g.acquires.map (requestOf c) = (List.range k).map (lineRequest c h g.payload))

/-- The line buffer begins with `words`. -/
def RamOk (ram : ℕ → ℕ) (words : List ℕ) : Prop :=
  ∀ j (hj : j < words.length), ram j = words[j]

/-- The first `n` subwords of the reply were sent. -/
def SentOk (c : HTIFConf) (h : ℕ) (g : PacketLog c) (n : ℕ) : Prop :=
  g.sent = (List.range n).map (replySubword c h g.readWords)

/-- The payload of a write comes in. -/
structure Receiving (s : HTIF c) (g : PacketLog c) (h : ℕ) : Prop where
  rest : Rest s g
  cmd : packetCmd h = cmdWritemem ∨ packetCmd h = cmdWritecr
  txCount : s.txCount = 0
  rxCount : s.rxCount = 2 ^ c.subBits * (g.payload.length + 1) + g.word.length
  word_lt : g.word.length < 2 ^ c.subBits
  shifter : ShifterOk c s.rxShifter g.word
  acquires : AcquiresOk c h g g.lines
  accesses : g.accesses = []
  lines_lt : g.lines < total c h
  payload_lt : g.payload.length < c.packetRamDepth * (g.lines + 1)
  data : Good c h → c.packetRamDepth * g.lines ≤ g.payload.length ∧
    RamOk s.packetRam (g.payload.drop (c.packetRamDepth * g.lines)) ∧ g.sent = []

/-- A line is read or written. -/
structure InLine (s : HTIF c) (g : PacketLog c) (h : ℕ) : Prop where
  mem : IsMem h
  rxCount : (packetCmd h = cmdReadmem → Good c h) →
    s.rxCount = 2 ^ c.subBits * (g.payload.length + 1)
  lines_lt : g.lines < total c h
  write : packetCmd h = cmdWritemem →
    s.txCount = 0 ∧ g.payload.length ≤ c.packetRamDepth * (g.lines + 1) ∧
    (Good c h → g.payload.length = c.packetRamDepth * (g.lines + 1) ∧
      RamOk s.packetRam (g.payload.drop (c.packetRamDepth * g.lines)) ∧ g.sent = [])
  read : packetCmd h = cmdReadmem → g.payload = [] ∧ (¬Good c h → s.txCount = 0) ∧
    (Good c h → SentOk c h g s.txCount ∧ s.txCount =
      if g.lines = 0 then 0 else 2 ^ c.subBits * (c.packetRamDepth * g.lines + 1))

/-- The acquire of a line waits in the queue, for its grant, or was granted. -/
inductive Asked (s : HTIF c) (g : PacketLog c) (h : ℕ) : Prop
  | queued (a) : s.acqQ = some a → a = ⟨(lineRequest c h [] g.lines).1, lineAddr c h g.lines⟩ →
      s.memAcked = false → g.owed = 0 → AcquiresOk c h g g.lines → Asked s g h
  | taken : s.acqQ = none → s.memAcked = false → g.owed = 1 → AcquiresOk c h g (g.lines + 1) →
      Asked s g h
  | acked : s.state = .memWresp → s.acqQ = none → s.memAcked = true → g.owed = 0 →
      AcquiresOk c h g (g.lines + 1) → Asked s g h

/-- The reply is sent. -/
structure Replying (s : HTIF c) (g : PacketLog c) (h : ℕ) : Prop where
  rest : Rest s g
  lines_le : g.lines ≤ total c h
  acquires : AcquiresOk c h g g.lines
  read : packetCmd h = cmdReadmem → 0 < g.lines ∧ g.payload = [] ∧
    g.readWords.length = c.packetRamDepth * g.lines ∧
    (¬Good c h → s.txCount < 2 ^ c.subBits) ∧
    (Good c h → s.rxCount = 2 ^ c.subBits ∧ SentOk c h g s.txCount ∧
      RamOk s.packetRam (g.readWords.drop (c.packetRamDepth * (g.lines - 1))) ∧
      s.txCount < 2 ^ c.subBits * (c.packetRamDepth * g.lines + 1) ∧
      (g.lines = 1 ∨ 2 ^ c.subBits * (c.packetRamDepth * (g.lines - 1) + 1) ≤ s.txCount))
  write : packetCmd h = cmdWritemem → g.lines = total c h ∧ s.txCount < 2 ^ c.subBits ∧
    (Good c h → SentOk c h g s.txCount ∧ g.payload.length = packetSize h ∧
      s.rxCount = 2 ^ c.subBits * (g.payload.length + 1))
  cr : IsCr h → g.accesses ≠ [] ∧ s.txCount < 2 ^ c.subBits * (replySize c h + 1)
  other : ¬IsMem h → ¬IsCr h → s.txCount < 2 ^ c.subBits ∧ SentOk c h g s.txCount

/-- How far into a line a state is. -/
def phase (s : HTIF c) : ℕ :=
  match s.state with
  | .memRresp | .memWresp => if s.acqQ.isSome then 1 else if s.memAcked then 3 else 2
  | .memFinish => 4
  | _ => 0

/-- Where the packet is, in each state. -/
structure Serving (s : HTIF c) (g : PacketLog c) (h : ℕ) : Prop where
  packet : Packet s g h
  pace : Good c h →
    g.unstalled + 2 ^ c.subBits ≤ 5 * g.lines + phase s + s.rxCount + s.txCount
  state : match s.state with
    | .rx => Receiving s g h
    | .memRreq => packetCmd h = cmdReadmem ∧ InLine s g h ∧ Rest s g ∧
        AcquiresOk c h g g.lines ∧ g.readWords.length = c.packetRamDepth * g.lines
    | .memWreq => packetCmd h = cmdWritemem ∧ InLine s g h ∧ Rest s g ∧ AcquiresOk c h g g.lines
    | .memRresp => packetCmd h = cmdReadmem ∧ InLine s g h ∧ Asked s g h ∧
        g.readWords.length = c.packetRamDepth * g.lines
    | .memWresp => packetCmd h = cmdWritemem ∧ InLine s g h ∧ Asked s g h
    | .memFinish => InLine s g h ∧ Rest s g ∧ AcquiresOk c h g (g.lines + 1) ∧
        (packetCmd h = cmdReadmem → g.readWords.length = c.packetRamDepth * (g.lines + 1) ∧
          RamOk s.packetRam (g.readWords.drop (c.packetRamDepth * g.lines)))
    | .tx => Replying s g h
    | .pcrReq => IsCr h ∧ Rest s g ∧ s.txCount = 0 ∧ g.accesses = []
    | .pcrResp => IsCr h ∧ Rest s g ∧ s.txCount = 0 ∧ g.accesses ≠ []

/-- What a packet has come to. -/
structure Final (c : HTIFConf) (h : ℕ) (g : PacketLog c) : Prop where
  mem : IsMem h → AcquiresOk c h g (total c h)
  noMem : ¬IsMem h → g.acquires = []
  cr : IsCr h → g.accesses ≠ []
  noCr : ¬IsCr h → g.accesses = []
  good : Good c h → SentOk c h g (2 ^ c.subBits * (replySize c h + 1)) ∧
    g.readWords.length = (if packetCmd h = cmdReadmem then packetSize h else 0) ∧
    g.payload.length = (if packetCmd h = cmdWritemem then packetSize h else 0)
  other : ¬IsMem h → ¬IsCr h → SentOk c h g (2 ^ c.subBits)

/-- Between packets. -/
structure Between (s : HTIF c) (g : PacketLog c) : Prop where
  rest : Rest s g
  txCount : s.txCount = 0
  rxCount : s.rxCount = g.word.length
  shifter : ShifterOk c s.rxShifter g.word
  final : ∀ h, g.header = some h → Final c h g

/-- The invariant of the interface. -/
def PacketOk (s : HTIF c) (g : PacketLog c) : Prop :=
  s.Over ∧ Between s g ∨ ¬s.Over ∧ ∃ h, Serving s g h

/-! ### Keeping it -/

section Steps

variable {s s' : HTIF c} {g g' : PacketLog c} {h : ℕ} {i : HTIFInput c}

/-- A step that leaves the header's registers and the lines alone. -/
theorem Packet.congr (hp : Packet s g h)
    (hregs : s'.cmd = s.cmd ∧ s'.size = s.size ∧ s'.seqno = s.seqno ∧ s'.addr = s.addr ∧
      s'.pos = s.pos)
    (hlog : g'.header = g.header ∧ g'.lines = g.lines ∧ g'.payload = g.payload)
    (hacq : ¬IsMem h → g'.acquires = g.acquires) (hcr : ¬IsCr h → g'.accesses = g.accesses)
    (hread : packetCmd h ≠ cmdReadmem → g'.readWords = g.readWords)
    (hword : s'.state ≠ .rx → g'.word = []) : Packet s' g' h := by
  obtain ⟨hcmd, hsize, hseqno, haddr, hpos⟩ := hregs
  obtain ⟨hheader, hlines, hpayload⟩ := hlog
  refine ⟨hheader.trans hp.header, hcmd.trans hp.cmd, hsize.trans hp.size,
    hseqno.trans hp.seqno, ?_, ?_, fun hm => ?_, fun hm => (hcr hm).trans (hp.noCr hm),
    fun hm => (hread hm).trans (hp.noRead hm), hword, hpayload ▸ hp.payload⟩
  · rw [haddr, hlines, hp.addr]
  · rw [hpos, hlines, hp.pos]
  · exact ⟨hlines.trans (hp.noMem hm).1, (hacq hm).trans (hp.noMem hm).2⟩

theorem tick_unstalled_le (s : HTIF c) (i : HTIFInput c) (g : PacketLog c) :
    (tick s i g).unstalled ≤ g.unstalled + 1 := by
  simp only [tick]
  split <;> omega

theorem not_over_of_ne (hs : s.state ≠ .rx) : ¬s.Over := fun h => hs h.1

theorem Packet.acqEnqBits (hp : Packet s g h) :
    s.acqEnqBits = ⟨(lineRequest c h [] g.lines).1, lineAddr c h g.lines⟩ := by
  have hL := c.lineBits_lt
  have haddr : s.initAddr = (packetAddr h / 2 ^ c.lineBits + g.lines) % 2 ^ (40 - c.lineBits) := by
    rw [initAddr, hp.addr, show 2 ^ 40 = 2 ^ c.lineBits * 2 ^ (40 - c.lineBits) by
      rw [← pow_add, Nat.add_sub_cancel' (by omega)], Nat.mod_mul_right_div_self,
      Nat.add_mul_div_left _ _ (Nat.two_pow_pos _)]
  rw [HTIF.acqEnqBits, haddr, hp.cmd, lineRequest, lineAddr]
  split <;> rfl

theorem serving_req (hsv : Serving s g h) (henv : EnvOk (s, g) i)
    (hs : s.state = .memRreq ∨ s.state = .memWreq) :
    PacketOk (s.next i) (g.note s i) := by
  have hstate := hsv.state
  have hline : InLine s g h ∧ Rest s g ∧ AcquiresOk c h g g.lines := by
    rcases hs with hs | hs <;> simp only [hs] at hstate
    · exact ⟨hstate.2.1, hstate.2.2.1, hstate.2.2.2.1⟩
    · exact hstate.2
  obtain ⟨hin, hrest, hacq⟩ := hline
  obtain ⟨hn, hg⟩ := edge_req hrest henv hs
  have hne : s.state ≠ .rx := by rcases hs with hs | hs <;> rw [hs] <;> decide
  have hword := hsv.packet.word hne
  have hin' : InLine (s.next i) (g.note s i) h := by
    rw [hn, hg]
    exact ⟨hin.mem, hin.rxCount, hin.lines_lt, hin.write, hin.read⟩
  have hasked : Asked (s.next i) (g.note s i) h := by
    rw [hn, hg]
    exact .queued s.acqEnqBits rfl hsv.packet.acqEnqBits hrest.memAcked hrest.owed hacq
  have hpk : Packet (s.next i) (g.note s i) h := by
    rw [hn, hg]
    exact hsv.packet.congr ⟨rfl, rfl, rfl, rfl, rfl⟩ ⟨rfl, rfl, rfl⟩ (fun _ => rfl) (fun _ => rfl)
      (fun _ => rfl) fun _ => hword
  have hpace : Good c h → (g.note s i).unstalled + 2 ^ c.subBits
      ≤ 5 * (g.note s i).lines + 1 + (s.next i).rxCount + (s.next i).txCount := fun hgood => by
    have hle := tick_unstalled_le s i g
    have hold := hsv.pace hgood
    have hphase : phase s = 0 := by rcases hs with hs | hs <;> simp [phase, hs]
    rw [hn, hg]
    change (tick s i g).unstalled + _ ≤ 5 * g.lines + 1 + s.rxCount + s.txCount
    omega
  have hq : (s.next i).acqQ.isSome = true := by rw [hn]; rfl
  rcases hs with hs | hs <;> simp only [hs] at hstate
  · have hs' : (s.next i).state = .memRresp := by rw [hn, if_pos hs]
    refine .inr ⟨not_over_of_ne (by rw [hs']; decide), h, hpk, fun hgood => ?_, ?_⟩
    · rw [phase, hs']
      simpa [hq] using hpace hgood
    · rw [hs']
      refine ⟨hstate.1, hin', hasked, ?_⟩
      rw [hg]
      exact hstate.2.2.2.2
  · have hs' : (s.next i).state = .memWresp := by rw [hn, hs]; rfl
    refine .inr ⟨not_over_of_ne (by rw [hs']; decide), h, hpk, fun hgood => ?_, ?_⟩
    · rw [phase, hs']
      simpa [hq] using hpace hgood
    · rw [hs']
      exact ⟨hstate.1, hin', hasked⟩

/-- The acquire that leaves the queue carries the line of the payload that was just received. -/
theorem InLine.requestOf_eq (hin : InLine s g h) (hp : Packet s g h) (hgood : Good c h) :
    requestOf c ⟨(lineRequest c h [] g.lines).1, lineAddr c h g.lines, memReqData c s.packetRam⟩
      = lineRequest c h g.payload g.lines := by
  by_cases hw : packetCmd h = cmdWritemem
  · obtain ⟨-, -, hdata⟩ := hin.write hw
    obtain ⟨hlen, hram, -⟩ := hdata hgood
    have hdrop : (g.payload.drop (c.packetRamDepth * g.lines)).length = c.packetRamDepth := by
      rw [List.length_drop, hlen, Nat.mul_succ, Nat.add_sub_cancel_left]
    have hlt : ∀ k < c.packetRamDepth, s.packetRam k < 2 ^ 64 := fun k hk => by
      rw [hram k (hdrop.symm ▸ hk)]
      exact hp.payload _ (List.mem_of_mem_drop (List.getElem_mem _))
    have hwords : (List.range c.packetRamDepth).map (lineWord (memReqData c s.packetRam))
        = g.payload.drop (c.packetRamDepth * g.lines) := by
      refine List.ext_getElem (by simp [hdrop]) fun j hj hj' => ?_
      have hj'' : j < c.packetRamDepth := by simpa using hj
      rw [List.getElem_map, List.getElem_range, lineWord_memReqData hlt hj'', hram j hj']
    rw [lineRequest, lineRequest, if_pos hw, if_pos hw, List.take_of_length_le hdrop.le]
    simp only [requestOf, hwords]
  · simp only [lineRequest, if_neg hw, requestOf]

theorem AcquiresOk.snoc {a : LineAcquire} (ha : AcquiresOk c h g g.lines)
    (hreq : Good c h → requestOf c a = lineRequest c h g.payload g.lines)
    (hacq : g'.acquires = g.acquires ++ [a]) (hpay : g'.payload = g.payload) :
    AcquiresOk c h g' (g.lines + 1) := by
  refine ⟨by rw [hacq, List.length_append, ha.1]; rfl, fun hgood => ?_⟩
  rw [hacq, hpay, List.map_append, ha.2 hgood, List.range_succ, List.map_append, List.map_singleton,
    List.map_singleton, hreq hgood]

/-- What a cycle of waiting comes to. -/
inductive Awaiting (s : HTIF c) (g : PacketLog c) (i : HTIFInput c) (h : ℕ) : Prop
  | queued (a) : (s.next i).acqQ = some a →
      a = ⟨(lineRequest c h [] g.lines).1, lineAddr c h g.lines⟩ → s.memAcked = false →
      i.grant = none → (g.note s i).owed = 0 → AcquiresOk c h (g.note s i) g.lines →
      (g.note s i).unstalled + phase s ≤ g.unstalled + 1 → Awaiting s g i h
  | taken : (s.next i).acqQ = none → s.memAcked = false → i.grant = none →
      (g.note s i).owed = 1 → AcquiresOk c h (g.note s i) (g.lines + 1) →
      (g.note s i).unstalled + phase s ≤ g.unstalled + 2 → Awaiting s g i h
  | granted : (s.next i).acqQ = none → s.memAcked = false → i.grant.isSome = true →
      (g.note s i).owed = 0 → AcquiresOk c h (g.note s i) (g.lines + 1) →
      (g.note s i).unstalled + phase s ≤ g.unstalled + 3 → Awaiting s g i h
  | acked : s.state = .memWresp → (s.next i).acqQ = none → s.memAcked = true → i.grant = none →
      (g.note s i).owed = 0 → AcquiresOk c h (g.note s i) (g.lines + 1) →
      (g.note s i).unstalled + phase s ≤ g.unstalled + 4 → Awaiting s g i h

theorem Asked.awaiting (hask : Asked s g h) (hin : InLine s g h) (hp : Packet s g h)
    (henv : EnvOk (s, g) i) (hs : s.state = .memRresp ∨ s.state = .memWresp) :
    Awaiting s g i h := by
  obtain ⟨hn, hg⟩ := edge_resp henv hs
  have hq : (s.next i).acqQ = if i.acquireReady = true then none else s.acqQ := by rw [hn]
  have hle : (g.note s i).unstalled ≤ g.unstalled + 1 := by
    rw [hg]
    exact tick_unstalled_le s i g
  have hstall : s.Stalled i → (g.note s i).unstalled = g.unstalled := fun hst => by
    rw [hg]
    exact if_pos (.inr hst)
  have howed : (g.note s i).owed
      = g.owed + (s.acquireFire i).toList.length - i.grant.toList.length := by rw [hg]
  have hpay : (g.note s i).payload = g.payload := by rw [hg]; rfl
  have hacqs : (g.note s i).acquires = g.acquires ++ (s.acquireFire i).toList.map fun a =>
      ⟨a.aType, a.addr, memReqData c s.packetRam⟩ := by rw [hg]
  have hphase : phase s = if s.acqQ.isSome then 1 else if s.memAcked then 3 else 2 := by
    rcases hs with hs | hs <;> rw [phase, hs]
  cases hask with
  | queued a ha haeq hack hzero hok =>
    have hph : phase s = 1 := by rw [hphase, ha]; rfl
    rcases hrdy : i.acquireReady with _ | _
    · -- nobody takes the acquire, so nobody can grant it
      have hfire : s.acquireFire i = none := by simp [acquireFire, hrdy]
      have hgrant : i.grant = none := grant_eq_none henv hzero hfire
      have hst : s.Stalled i := by rcases hs with hs | hs <;> simp [Stalled, hs, ha, hrdy]
      refine .queued a (by rw [hq, hrdy, ha]; rfl) haeq hack hgrant ?_ ?_ ?_
      · rw [howed, hfire, hgrant, hzero]
        rfl
      · rw [hfire] at hacqs
        refine ⟨by rw [hacqs]; simpa using hok.1, fun hgood => ?_⟩
        rw [hacqs, hpay]
        simpa using hok.2 hgood
      · rw [hstall hst, hph]
    · have hfire : s.acquireFire i = some a := by simp [acquireFire, hrdy, ha]
      have hok' : AcquiresOk c h (g.note s i) (g.lines + 1) := by
        rw [hfire] at hacqs
        refine hok.snoc (a := ⟨a.aType, a.addr, memReqData c s.packetRam⟩) (fun hgood => ?_) hacqs
          hpay
        rw [haeq]
        exact hin.requestOf_eq hp hgood
      have hnone : (s.next i).acqQ = none := by rw [hq, hrdy]; rfl
      rcases hgr : i.grant with _ | r
      · refine .taken hnone hack hgr ?_ hok' (by omega)
        rw [howed, hfire, hgr, hzero]
        rfl
      · refine .granted hnone hack (by rw [hgr]; rfl) ?_ hok' (by omega)
        rw [howed, hfire, hgr, hzero]
        rfl
  | taken ha hack hone hok =>
    have hfire : s.acquireFire i = none := by simp [acquireFire, ha]
    have hph : phase s = 2 := by rw [hphase, ha, hack]; rfl
    have hnone : (s.next i).acqQ = none := by rw [hq, ha, ite_self]
    have hok' : AcquiresOk c h (g.note s i) (g.lines + 1) := by
      rw [hfire] at hacqs
      refine ⟨by rw [hacqs]; simpa using hok.1, fun hgood => ?_⟩
      rw [hacqs, hpay]
      simpa using hok.2 hgood
    rcases hgr : i.grant with _ | r
    · have hst : s.Stalled i := by rcases hs with hs | hs <;> simp [Stalled, hs, ha, hack, hgr]
      refine .taken hnone hack hgr ?_ hok' (by rw [hstall hst, hph])
      rw [howed, hfire, hgr, hone]
      rfl
    · refine .granted hnone hack (by rw [hgr]; rfl) ?_ hok' (by omega)
      rw [howed, hfire, hgr, hone]
      rfl
  | acked hw ha hack hzero hok =>
    have hfire : s.acquireFire i = none := by simp [acquireFire, ha]
    have hph : phase s = 3 := by rw [hphase, ha, hack]; rfl
    have hgrant : i.grant = none := grant_eq_none henv hzero hfire
    refine .acked hw (by rw [hq, ha, ite_self]) hack hgrant ?_ ?_ (by omega)
    · rw [howed, hfire, hgrant, hzero]
      rfl
    · rw [hfire] at hacqs
      refine ⟨by rw [hacqs]; simpa using hok.1, fun hgood => ?_⟩
      rw [hacqs, hpay]
      simpa using hok.2 hgood

/-- Lines that were read later do not change what was sent. -/
theorem replySubword_append {words : List ℕ} {n : ℕ}
    (hn : n < 2 ^ c.subBits * (words.length + 1)) (words' : List ℕ) :
    replySubword c h (words ++ words') n = replySubword c h words n := by
  have hlt : n / 2 ^ c.subBits < (replyHeader c h :: words).length :=
    Nat.div_lt_of_lt_mul hn
  rw [replySubword, replySubword, ← List.cons_append, List.getD_eq_getElem?_getD,
    List.getD_eq_getElem?_getD,
    List.getElem?_append_left hlt]

theorem SentOk.append {n : ℕ} (hsent : SentOk c h g n)
    (hn : n ≤ 2 ^ c.subBits * (g.readWords.length + 1)) {words : List ℕ}
    (hs : g'.sent = g.sent) (hr : g'.readWords = g.readWords ++ words) : SentOk c h g' n := by
  rw [SentOk, hs, hr, hsent]
  refine List.map_congr_left fun m hm => ?_
  rw [replySubword_append (lt_of_lt_of_le (List.mem_range.mp hm) hn)]

theorem serving_rresp (hsv : Serving s g h) (henv : EnvOk (s, g) i) (hs : s.state = .memRresp) :
    PacketOk (s.next i) (g.note s i) := by
  have hstate := hsv.state
  simp only [hs] at hstate
  obtain ⟨hcmd, hin, hask, hlen⟩ := hstate
  have hwait := hask.awaiting hin hsv.packet henv (.inl hs)
  obtain ⟨hn, hg⟩ := edge_resp henv (.inl hs)
  have hne : s.state ≠ .rx := by rw [hs]; decide
  have hnw : packetCmd h ≠ cmdWritemem := by rw [hcmd]; decide
  have hpk : Packet (s.next i) (g.note s i) h := by
    rw [hn, hg]
    exact hsv.packet.congr ⟨rfl, rfl, rfl, rfl, rfl⟩ ⟨rfl, rfl, rfl⟩ (fun hm => absurd hin.mem hm)
      (fun _ => rfl) (fun hr => absurd hcmd hr) fun _ => hsv.packet.word hne
  have hwords : (g.note s i).readWords = g.readWords ++ (i.grant).toList.flatMap fun a =>
      (List.range c.packetRamDepth).map (lineWord a.data) := by
    rw [hg, readGrant, if_pos hs]
  have hin' : InLine (s.next i) (g.note s i) h := by
    obtain ⟨hpay, hbad, hdata⟩ := hin.read hcmd
    have hrx : (s.next i).rxCount = s.rxCount ∧ (g.note s i).payload = g.payload := by
      rw [hn, hg]
      exact ⟨rfl, rfl⟩
    have htx : (s.next i).txCount = s.txCount ∧ (g.note s i).lines = g.lines ∧
        (g.note s i).sent = g.sent := by
      rw [hn, hg]
      exact ⟨rfl, rfl, rfl⟩
    refine ⟨hin.mem, ?_, htx.2.1.symm ▸ hin.lines_lt, fun hw => absurd hw hnw, fun _ => ?_⟩
    · rw [hrx.1, hrx.2]
      exact hin.rxCount
    · rw [hrx.2, htx.1, htx.2.1]
      refine ⟨hpay, hbad, fun hgood => ⟨?_, (hdata hgood).2⟩⟩
      refine (hdata hgood).1.append ?_ htx.2.2 hwords
      rw [hlen, (hdata hgood).2]
      split
      · exact Nat.zero_le _
      · exact le_rfl
  have hlines : (g.note s i).lines = g.lines := by rw [hg]; rfl
  have hack' : (s.next i).memAcked = false := by
    rw [hn]
    simp only [memAckedNext, hs]
  have hst' : (s.next i).state = if i.grant.isSome = true then .memFinish else .memRresp := by
    rw [hn]
    simp only [memState, hs]
  have hcount : (s.next i).rxCount = s.rxCount ∧ (s.next i).txCount = s.txCount := by
    rw [hn]
    exact ⟨rfl, rfl⟩
  -- until the grant comes
  have hstay : i.grant = none → Asked (s.next i) (g.note s i) h →
      (Good c h → (g.note s i).unstalled + phase s ≤ g.unstalled + phase (s.next i)) →
      PacketOk (s.next i) (g.note s i) := fun hgr hask' hpace => by
    rw [hgr] at hst'
    refine .inr ⟨not_over_of_ne (by rw [hst']; simp), h, hpk, fun hgood => ?_, ?_⟩
    · have := hsv.pace hgood
      have := hpace hgood
      rw [hlines, hcount.1, hcount.2]
      omega
    · rw [hst']
      refine ⟨hcmd, hin', hask', ?_⟩
      rw [hwords, hgr, hlines]
      simpa using hlen
  have hphase : i.grant = none → phase (s.next i) = if (s.next i).acqQ.isSome then 1 else 2 :=
    fun hgr => by
      rw [hgr] at hst'
      simp [phase, hst', hack']
  cases hwait with
  | queued a ha haeq hack hgr howed hok hle =>
    refine hstay hgr (.queued a ha ?_ hack' howed (hlines.symm ▸ hok)) fun _ => ?_
    · rw [hlines]
      exact haeq
    · rw [hphase hgr, ha]
      simpa using hle
  | taken ha hack hgr howed hok hle =>
    refine hstay hgr (.taken ha hack' howed (hlines.symm ▸ hok)) fun _ => ?_
    rw [hphase hgr, ha]
    simpa using hle
  | acked hw => exact absurd (hs.symm.trans hw) (by decide)
  | granted ha hack hgr howed hok hle =>
    obtain ⟨r, hr⟩ := Option.isSome_iff_exists.mp hgr
    rw [hr, Option.isSome_some, if_pos rfl] at hst'
    refine .inr ⟨not_over_of_ne (by rw [hst']; decide), h, hpk, fun hgood => ?_, ?_⟩
    · have := hsv.pace hgood
      rw [hlines, hcount.1, hcount.2, phase, hst']
      change _ ≤ 5 * g.lines + 4 + _ + _
      omega
    · rw [hst']
      have hdrop : (g.note s i).readWords.drop (c.packetRamDepth * g.lines)
          = (List.range c.packetRamDepth).map (lineWord r.data) := by
        rw [hwords, hr, ← hlen]
        simp
      refine ⟨hin', ⟨ha, hack', howed⟩, hlines.symm ▸ hok, fun _ => ⟨?_, fun j hj => ?_⟩⟩
      · rw [hwords, hr, hlines, List.length_append, hlen, Nat.mul_succ]
        simp
      · simp only [hlines, hdrop] at hj ⊢
        have hj' : j < c.packetRamDepth := by simpa using hj
        rw [List.getElem_map, List.getElem_range, hn]
        simp only [packetRamNext, readGrant, if_pos hs, hr, if_pos hj']

theorem serving_wresp (hsv : Serving s g h) (henv : EnvOk (s, g) i) (hs : s.state = .memWresp) :
    PacketOk (s.next i) (g.note s i) := by
  have hstate := hsv.state
  simp only [hs] at hstate
  obtain ⟨hcmd, hin, hask⟩ := hstate
  have hwait := hask.awaiting hin hsv.packet henv (.inr hs)
  obtain ⟨hn, hg⟩ := edge_resp henv (.inr hs)
  have hne : s.state ≠ .rx := by rw [hs]; decide
  have hread : s.state ≠ .memRresp := by rw [hs]; decide
  have hnr : packetCmd h ≠ cmdReadmem := by rw [hcmd]; decide
  have hwords : (g.note s i).readWords = g.readWords := by
    rw [hg, readGrant_of_ne hread]
    simp
  have hram : s.packetRamNext i = s.packetRam := by
    rw [packetRamNext, readGrant_of_ne hread, rxWord_of_ne hne]
  have hpk : Packet (s.next i) (g.note s i) h := by
    rw [hn]
    refine hsv.packet.congr ⟨rfl, rfl, rfl, rfl, rfl⟩ ?_ (fun hm => absurd hin.mem hm) (fun _ => ?_)
      (fun _ => hwords) fun _ => ?_
    all_goals rw [hg]
    · exact ⟨rfl, rfl, rfl⟩
    · rfl
    · exact hsv.packet.word hne
  have hin' : InLine (s.next i) (g.note s i) h := by
    rw [hn, hg]
    refine ⟨hin.mem, hin.rxCount, hin.lines_lt, fun _ => ?_, fun hr => absurd hr hnr⟩
    simp only [hram]
    exact hin.write hcmd
  have hlines : (g.note s i).lines = g.lines := by rw [hg]; rfl
  have hack' : (s.next i).memAcked = (!s.memAcked && i.grant.isSome) := by
    rw [hn]
    simp only [memAckedNext, hs]
  have hst' : (s.next i).state = if s.memAcked = true then .memFinish else .memWresp := by
    rw [hn]
    simp only [memState, hs]
  have hcount : (s.next i).rxCount = s.rxCount ∧ (s.next i).txCount = s.txCount := by
    rw [hn]
    exact ⟨rfl, rfl⟩
  -- until it was granted
  have hstay : s.memAcked = false → Asked (s.next i) (g.note s i) h →
      (g.note s i).unstalled + phase s ≤ g.unstalled + phase (s.next i) →
      PacketOk (s.next i) (g.note s i) := fun hack hask' hpace => by
    rw [hack] at hst'
    refine .inr ⟨not_over_of_ne (by rw [hst']; simp), h, hpk, fun hgood => ?_, ?_⟩
    · have := hsv.pace hgood
      rw [hlines, hcount.1, hcount.2]
      omega
    · rw [hst']
      exact ⟨hcmd, hin', hask'⟩
  have hphase : s.memAcked = false → phase (s.next i)
      = if (s.next i).acqQ.isSome then 1 else if i.grant.isSome then 3 else 2 := fun hack => by
    rw [hack] at hst' hack'
    simp [phase, hst', hack']
  cases hwait with
  | queued a ha haeq hack hgr howed hok hle =>
    refine hstay hack (.queued a ha ?_ (by rw [hack', hgr, hack]; rfl) howed (hlines.symm ▸ hok)) ?_
    · rw [hlines]
      exact haeq
    · rw [hphase hack, ha]
      simpa using hle
  | taken ha hack hgr howed hok hle =>
    refine hstay hack (.taken ha (by rw [hack', hgr, hack]; rfl) howed (hlines.symm ▸ hok)) ?_
    rw [hphase hack, ha, hgr]
    simpa using hle
  | granted ha hack hgr howed hok hle =>
    refine hstay hack (.acked (by rw [hst', hack]; rfl) ha (by rw [hack', hack, hgr]; rfl) howed
      (hlines.symm ▸ hok)) ?_
    rw [hphase hack, ha, hgr]
    simpa using hle
  | acked hw ha hack hgr howed hok hle =>
    rw [hack, if_pos rfl] at hst'
    refine .inr ⟨not_over_of_ne (by rw [hst']; decide), h, hpk, fun hgood => ?_, ?_⟩
    · have := hsv.pace hgood
      rw [hlines, hcount.1, hcount.2, phase, hst']
      change _ ≤ 5 * g.lines + 4 + _ + _
      omega
    · rw [hst']
      refine ⟨hin', ⟨ha, by rw [hack', hack]; rfl, howed⟩, hlines.symm ▸ hok, fun hr =>
        absurd hr hnr⟩

section

variable (hin : InLine s g h) (hp : Packet s g h) (hrest : Rest s g) (henv : EnvOk (s, g) i)
  (hs : s.state = .memFinish) (hacq : AcquiresOk c h g (g.lines + 1))
include hin hp hrest henv hs hacq

theorem InLine.replying_of_finish
    (hline : packetCmd h = cmdReadmem → g.readWords.length = c.packetRamDepth * (g.lines + 1) ∧
      RamOk s.packetRam (g.readWords.drop (c.packetRamDepth * g.lines)))
    (hrdy : i.grantAckReady = true) (hgo : s.cmd = cmdReadmem ∨ s.pos = 1) :
    Replying (s.next i) (g.note s i) h := by
  obtain ⟨hn, hg⟩ := (edge_finish hrest henv hs).2 hrdy
  have hlast : s.pos = 1 ↔ g.lines + 1 = total c h := by
    rw [hp.pos]
    exact pos_eq_one_iff hin.lines_lt
  have hD := packetRamDepth_pos c
  have hS := Nat.two_pow_pos c.subBits
  rw [hn, hg]
  refine ⟨⟨hrest.acqQ, hrest.memAcked, hrest.owed⟩, hin.lines_lt, hacq, fun hr => ?_, fun hw => ?_,
    fun hc => ?_, fun hm => ?_⟩
  · obtain ⟨hpay, hbad, hdata⟩ := hin.read hr
    obtain ⟨hlen, hram⟩ := hline hr
    refine ⟨Nat.succ_pos _, hpay, hlen, fun hgood => ?_, fun hgood => ?_⟩
    · exact (hbad hgood).trans_lt hS
    · obtain ⟨hsent, htx⟩ := hdata hgood
      refine ⟨?_, hsent, hram, ?_, ?_⟩
      · change s.rxCount = _
        rw [hin.rxCount fun _ => hgood, hpay]
        exact Nat.mul_one _
      · change s.txCount < 2 ^ c.subBits * (c.packetRamDepth * (g.lines + 1) + 1)
        rw [htx]
        split
        · positivity
        · exact Nat.mul_lt_mul_of_pos_left (by rw [Nat.mul_succ]; omega) hS
      · change g.lines + 1 = 1 ∨ 2 ^ c.subBits * (c.packetRamDepth * g.lines + 1) ≤ s.txCount
        rw [htx]
        split
        · exact .inl (by omega)
        · exact .inr le_rfl
  · have hnr : s.cmd ≠ cmdReadmem := by rw [hp.cmd, hw]; decide
    obtain ⟨htx, hle, hdata⟩ := hin.write hw
    refine ⟨hlast.mp (hgo.resolve_left hnr), htx.trans_lt hS, fun hgood => ?_⟩
    obtain ⟨hlen, -, hsent⟩ := hdata hgood
    refine ⟨?_, ?_, hin.rxCount fun _ => hgood⟩
    · change g.sent = (List.range s.txCount).map _
      rw [htx, hsent]
      rfl
    · change g.payload.length = _
      rw [hlen, hlast.mp (hgo.resolve_left hnr), hgood.size_eq]
  · rcases hin.mem with hm | hm <;> rcases hc with hc | hc <;>
      exact absurd (hm.symm.trans hc) (by decide)
  · exact absurd hin.mem hm

theorem InLine.receiving_of_finish (hrdy : i.grantAckReady = true)
    (hgo : ¬(s.cmd = cmdReadmem ∨ s.pos = 1)) :
    ¬(s.next i).Over ∧ Receiving (s.next i) (g.note s i) h := by
  obtain ⟨hn, hg⟩ := (edge_finish hrest henv hs).2 hrdy
  have hword := hp.word (by rw [hs]; decide)
  have hD := packetRamDepth_pos c
  have hS := Nat.two_pow_pos c.subBits
  have hw : packetCmd h = cmdWritemem :=
    hin.mem.resolve_left fun hr => hgo (.inl (hp.cmd.trans hr))
  obtain ⟨htx, hle, hdata⟩ := hin.write hw
  have hcount := hin.rxCount fun hr => absurd (hw.symm.trans hr) (by decide)
  have hnc : ¬IsCr h := by
    rintro (hc | hc) <;> exact absurd (hw.symm.trans hc) (by decide)
  refine ⟨fun hover => ?_, ?_⟩
  · have hlt := hover.2
    rw [hn] at hlt
    change s.rxCount < _ at hlt
    rw [hcount] at hlt
    nlinarith
  · rw [hn, hg]
    refine ⟨⟨hrest.acqQ, hrest.memAcked, hrest.owed⟩, .inl hw, htx, ?_, ?_, ?_, hacq, hp.noCr hnc,
      ?_, ?_, fun hgood => ?_⟩
    · change s.rxCount = 2 ^ c.subBits * (g.payload.length + 1) + g.word.length
      rw [hword, hcount]
      rfl
    · change g.word.length < _
      rw [hword]
      exact hS
    · change ShifterOk c s.rxShifter g.word
      rw [hword]
      exact shifterOk_nil c _
    · have hnl : ¬g.lines + 1 = total c h := fun hl => hgo (.inr (by
        rw [hp.pos]
        exact (pos_eq_one_iff hin.lines_lt).mpr hl))
      have := hin.lines_lt
      change g.lines + 1 < total c h
      omega
    · change g.payload.length < c.packetRamDepth * (g.lines + 1 + 1)
      rw [Nat.mul_succ]
      omega
    · obtain ⟨hlen, -, hsent⟩ := hdata hgood
      refine ⟨hlen.ge, fun j hj => ?_, hsent⟩
      change j < (g.payload.drop (c.packetRamDepth * (g.lines + 1))).length at hj
      rw [List.length_drop, hlen, Nat.sub_self] at hj
      exact absurd hj (Nat.not_lt_zero j)

end

theorem serving_finish (hsv : Serving s g h) (henv : EnvOk (s, g) i) (hs : s.state = .memFinish) :
    PacketOk (s.next i) (g.note s i) := by
  have hstate := hsv.state
  simp only [hs] at hstate
  obtain ⟨hin, hrest, hacq, hline⟩ := hstate
  obtain ⟨hwait, hmove⟩ := edge_finish hrest henv hs
  have hne : s.state ≠ .rx := by rw [hs]; decide
  rcases hrdy : i.grantAckReady with _ | _
  · obtain ⟨hn, hg⟩ := hwait hrdy
    rw [hn, hg]
    exact .inr ⟨not_over_of_ne hne, h, hsv⟩
  obtain ⟨hn, hg⟩ := hmove hrdy
  have hp := hsv.packet
  have hpk : Packet (s.next i) (g.note s i) h := by
    rw [hn, hg]
    refine ⟨hp.header, hp.cmd, hp.size, hp.seqno, ?_, ?_, fun hm => absurd hin.mem hm, hp.noCr,
      hp.noRead, fun _ => hp.word hne, hp.payload⟩
    · change (s.addr + 2 ^ c.lineBits) % 2 ^ 40 =
          (packetAddr h + 2 ^ c.lineBits * (g.lines + 1)) % 2 ^ 40
      rw [hp.addr, Nat.mod_add_mod, Nat.mul_succ, Nat.add_assoc]
    · change wrap _ ((s.pos : ℤ) - 1) = wrap _ ((total c h : ℤ) - (g.lines + 1 : ℕ))
      rw [hp.pos, show ((total c h : ℤ) - (g.lines + 1 : ℕ)) = total c h - g.lines - 1 by
        push_cast; ring]
      exact wrap_congr ((wrap_modEq _ _).sub_right 1)
  have hpace : Good c h → (g.note s i).unstalled + 2 ^ c.subBits
      ≤ 5 * (g.note s i).lines + (s.next i).rxCount + (s.next i).txCount := fun hgood => by
    have hle := tick_unstalled_le s i g
    have hold := hsv.pace hgood
    have hphase : phase s = 4 := by rw [phase, hs]
    rw [hn, hg]
    change (tick s i g).unstalled + _ ≤ 5 * (g.lines + 1) + s.rxCount + s.txCount
    omega
  have hst' : (s.next i).state = if s.cmd = cmdReadmem ∨ s.pos = 1 then .tx else .rx := by rw [hn]
  by_cases hgo : s.cmd = cmdReadmem ∨ s.pos = 1
  · rw [if_pos hgo] at hst'
    refine .inr ⟨not_over_of_ne (by rw [hst']; decide), h, hpk, fun hgood => ?_, ?_⟩
    · rw [phase, hst']
      exact hpace hgood
    · rw [hst']
      exact hin.replying_of_finish hp hrest henv hs hacq hline hrdy hgo
  · rw [if_neg hgo] at hst'
    obtain ⟨hover, hrecv⟩ := hin.receiving_of_finish hp hrest henv hs hacq hrdy hgo
    refine .inr ⟨hover, h, hpk, fun hgood => ?_, ?_⟩
    · rw [phase, hst']
      exact hpace hgood
    · rw [hst']
      exact hrecv

end Steps

end HTIF

end RiscvSoc
