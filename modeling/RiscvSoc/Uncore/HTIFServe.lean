import RiscvSoc.Uncore.HTIFReply

/-!
# What the host gets for its packets

Read off the invariant at the end of a packet, when the interface is about to take the header of
the next one.

A malformed packet is answered with a nack, and that is all the nack does: the state machine goes
by the command alone. A malformed read reads, a malformed write writes, and a control register is
accessed with any size. Only a command that does not exist is without effect.

A memory packet of whole, aligned lines is served line by line and word by word. Only the packet
of no lines is not: its position counter is decremented before it is looked at, and runs through
all its values.
-/

namespace RiscvSoc

open Bits

namespace HTIF

variable {c : HTIFConf} {h : ℕ}

/-- A word as the host gets it. -/
def subwords (c : HTIFConf) (x : ℕ) : List ℕ := (List.range (2 ^ c.subBits)).map (subword c x)

theorem map_range_eq_flatMap (words : List ℕ) :
    (List.range (2 ^ c.subBits * words.length)).map (fun n =>
      subword c (words.getD (n / 2 ^ c.subBits) 0) (n % 2 ^ c.subBits))
      = words.flatMap (subwords c) := by
  have hS := Nat.two_pow_pos c.subBits
  induction words using List.reverseRecOn with
  | nil => rfl
  | append_singleton words x ih =>
    rw [List.length_append, List.length_singleton, Nat.mul_succ, List.range_add, List.map_append,
      List.flatMap_append, List.flatMap_singleton, ← ih, List.map_map]
    congr 1
    · refine List.map_congr_left fun n hn => ?_
      rw [List.getD_append _ _ _ _ (Nat.div_lt_of_lt_mul (List.mem_range.mp hn))]
    · refine List.map_congr_left fun j hj => ?_
      have hj' := List.mem_range.mp hj
      simp only [Function.comp_apply, Nat.mul_add_div hS, Nat.div_eq_of_lt hj', Nat.add_zero,
        Nat.mul_add_mod, Nat.mod_eq_of_lt hj']
      rw [List.getD_append_right _ _ _ _ le_rfl, Nat.sub_self, List.getD_cons_zero]

variable {g : PacketLog c}

theorem SentOk.flatMap {n : ℕ} (hsent : SentOk c h g (2 ^ c.subBits * n))
    (hn : n = g.readWords.length + 1) :
    g.sent = (replyHeader c h :: g.readWords).flatMap (subwords c) := by
  subst hn
  exact hsent.trans (map_range_eq_flatMap (replyHeader c h :: g.readWords))

/-! ### Runs without a stall -/

/-- A cycle in which everybody is ready, and nobody sends anything. -/
def readyInput (c : HTIFConf) : HTIFInput c where
  hostIn := none
  hostOutReady := true
  acquireReady := true
  grant := none
  grantAckReady := true
  pcrReqReady := fun _ => true
  pcrRep := fun _ => none
  scrRdata := fun _ => 0

/-- The cycles in which the host sends a word. -/
def hostWord (c : HTIFConf) (x : ℕ) : List (HTIFInput c) :=
  (List.range (2 ^ c.subBits)).map fun j =>
    { readyInput c with hostIn := some ⟨subword c x j, Nat.mod_lt _ (Nat.two_pow_pos _)⟩ }

/-- The interface after the cycles `inputs`. -/
def after (c : HTIFConf) (inputs : List (HTIFInput c)) : HTIF c × PacketLog c :=
  Machine.cycles next PacketLog.note inputs (reset c, PacketLog.empty c)

theorem reachable_after {c : HTIFConf} (inputs : List (HTIFInput c))
    (hok : Machine.CyclesOk EnvOk next PacketLog.note inputs (reset c, PacketLog.empty c)) :
    (machine c).Reachable (after c inputs) := by
  have hinit : (machine c).Reachable (reset c, PacketLog.empty c) := .init ⟨isReset_reset c, rfl⟩
  exact Machine.reachable_restrict_cycles hinit inputs hok

/-! ### Nacked packets -/

/-- Nothing was done for the packet, and one nack sent. -/
structure Refused (c : HTIFConf) (h : ℕ) (g : PacketLog c) : Prop where
  acquires : g.acquires = []
  accesses : g.accesses = []
  sent : ∃ addr, g.sent = subwords c (header addr (packetSeqno h) 0 cmdNack)

/-- **Nacked packets.** In every run, when the next packet may come: nothing was read or written
for a malformed packet, and it got one nack, exactly if its command is none of the four. -/
theorem refused_iff (c : HTIFConf) {s : HTIF c × PacketLog c} (hs : (machine c).Reachable s)
    (hover : s.1.Over) (hh : s.2.header = some h) (hm : Malformed c h) :
    Refused c h s.2 ↔ ¬IsMem h ∧ ¬IsCr h := by
  obtain ⟨-, hb⟩ | ⟨hnot, -⟩ := packetOk_of_reachable s hs
  · have hf := hb.final h hh
    constructor
    · refine fun hr => ⟨fun hmem => ?_, fun hcr => hf.cr hcr hr.accesses⟩
      have hlen := (hf.mem hmem).1
      rw [hr.acquires] at hlen
      exact (total_pos c h).ne hlen
    · rintro ⟨hmem, hcr⟩
      refine ⟨hf.noMem hmem, hf.noCr hcr, replyAddr c h, ?_⟩
      have hsent := hf.other hmem hcr
      have hhead : replyHeader c h = header (replyAddr c h) (packetSeqno h) 0 cmdNack := by
        rw [replyHeader, replySize_of_other hmem hcr, replyCmd, if_pos hm]
      rw [← hhead]
      refine hsent.trans (List.map_congr_left fun n hn => ?_)
      have hn' := List.mem_range.mp hn
      rw [replySubword, Nat.div_eq_of_lt hn', Nat.mod_eq_of_lt hn']
      rfl
  · exact absurd hover hnot

/-- Command 9 does not exist. -/
def unknownCommand : List (HTIFInput HTIFConf.chip) :=
  hostWord _ (header 0 7 0 9) ++ List.replicate 4 (readyInput _)

theorem refused_iff_unknownCommand :
    Refused HTIFConf.chip (header 0 7 0 9) (after _ unknownCommand).2 :=
  (refused_iff HTIFConf.chip (reachable_after unknownCommand (by decide)) (by decide) rfl
    (by decide)).mpr (by decide)

/-- A write of two words to the reset register of tile `0`. -/
def longWrite : List (HTIFInput HTIFConf.chip) :=
  [header 29 7 2 cmdWritecr, 0, 0].flatMap (hostWord _) ++ List.replicate 5 (readyInput _)

/-- It takes effect, and is nacked. -/
theorem not_refused :
    ¬∀ (c : HTIFConf) (h : ℕ) (s : HTIF c × PacketLog c), (machine c).Reachable s → s.1.Over →
      s.2.header = some h → Malformed c h → Refused c h s.2 := by
  intro hall
  have hr := hall HTIFConf.chip (header 29 7 2 cmdWritecr) (after _ longWrite)
    (reachable_after longWrite (by decide)) (by decide) rfl (by decide)
  exact absurd hr.accesses (by decide)

/-! ### Memory packets -/

/-- The lines of the packet were asked for, each with the payload's words for it if it is written,
and the reply is a header with the sequence number and the words that were read. -/
structure Served (c : HTIFConf) (h : ℕ) (g : PacketLog c) : Prop where
  acquires : g.acquires.map (requestOf c)
    = (List.range (packetSize h / c.packetRamDepth)).map (lineRequest c h g.payload)
  payload : g.payload.length = if packetCmd h = cmdWritemem then packetSize h else 0
  readWords : g.readWords.length = if packetCmd h = cmdReadmem then packetSize h else 0
  sent : ∃ addr, g.sent = (header addr (packetSeqno h)
    (if packetCmd h = cmdReadmem then packetSize h else 0) cmdAck :: g.readWords).flatMap
      (subwords c)

/-- The cycles a packet may take in which nothing it waits for is withheld. -/
def limit (c : HTIFConf) (h : ℕ) : ℕ :=
  5 * (packetSize h / c.packetRamDepth) + 2 ^ c.subBits * (packetSize h + 1)

theorem total_of_good (hgood : Good c h) : packetSize h / c.packetRamDepth = total c h := by
  rw [hgood.size_eq, Nat.mul_div_cancel_left _ (packetRamDepth_pos c)]

theorem replyHeader_of_good (hgood : Good c h) :
    replyHeader c h = header (replyAddr c h) (packetSeqno h)
      (if packetCmd h = cmdReadmem then packetSize h else 0) cmdAck := by
  rw [replyHeader, replyCmd, if_neg hgood.1.2]
  rcases hgood.1.1 with hr | hw
  · rw [replySize_of_read hr hgood, if_pos hr]
  · rw [replySize_of_write hw, if_neg (by rw [hw]; decide)]

theorem Final.served (hf : Final c h g) (hgood : Good c h) : Served c h g := by
  obtain ⟨hsent, hread, hpay⟩ := hf.good hgood
  refine ⟨?_, hpay, hread, replyAddr c h, ?_⟩
  · rw [total_of_good hgood]
    exact (hf.mem hgood.1.1).2 hgood
  · rw [← replyHeader_of_good hgood]
    refine hsent.flatMap ?_
    rw [hread]
    rcases hgood.1.1 with hr | hw
    · rw [replySize_of_read hr hgood, if_pos hr]
    · rw [replySize_of_write hw, if_neg (by rw [hw]; decide)]

theorem phase_le (s : HTIF c) : phase s ≤ 4 := by
  rw [phase]
  split
  · split
    · omega
    · split <;> omega
  · split
    · omega
    · split <;> omega
  · omega
  · omega

theorem Serving.unstalled_le {s : HTIF c} (hsv : Serving s g h)
    (hgood : Good c h) : g.unstalled ≤ limit c h := by
  have hpace := hsv.pace hgood
  have hsize := hgood.size_eq
  have hstate := hsv.state
  have hS := Nat.two_pow_pos c.subBits
  rw [limit, total_of_good hgood]
  -- a word of the reply for each word of the packet, and one for the header
  have hword : ∀ k ≤ total c h, 2 ^ c.subBits * (c.packetRamDepth * k + 1)
      ≤ 2 ^ c.subBits * (packetSize h + 1) := fun k hk => by
    rw [hsize]
    exact Nat.mul_le_mul_left _ (Nat.add_le_add_right (Nat.mul_le_mul_left _ hk) 1)
  have hphase := phase_le s
  have hline : InLine s g h → g.unstalled ≤
      5 * total c h + 2 ^ c.subBits * (packetSize h + 1) := fun hin => by
    have hlt := hin.lines_lt
    have hrx := hin.rxCount fun _ => hgood
    rcases hin.mem with hr | hw
    · obtain ⟨hpay, -, hdata⟩ := hin.read hr
      obtain ⟨-, htx⟩ := hdata hgood
      have hle : s.txCount ≤ 2 ^ c.subBits * (packetSize h + 1) := by
        rw [htx]
        split
        · exact Nat.zero_le _
        · exact hword _ hlt.le
      rw [hpay] at hrx
      change s.rxCount = 2 ^ c.subBits * 1 at hrx
      omega
    · obtain ⟨htx, -, hdata⟩ := hin.write hw
      obtain ⟨hlen, -⟩ := hdata hgood
      have hle := hword (g.lines + 1) hlt
      rw [hlen] at hrx
      omega
  rcases hs : s.state with _ | _ | _ | _ | _ | _ | _ | _ | _ <;> simp only [hs] at hstate
  case rx =>
    have hphase : phase s = 0 := by rw [phase, hs]
    have hle := hword (g.lines + 1) hstate.lines_lt
    have hlt := hstate.lines_lt
    have hcount : s.rxCount < 2 ^ c.subBits * (packetSize h + 1) + 2 ^ c.subBits := by
      have hp := Nat.mul_le_mul_left (2 ^ c.subBits)
        (Nat.add_le_add_right (Nat.le_of_lt hstate.payload_lt) 1)
      rw [hstate.rxCount]
      have := hstate.word_lt
      omega
    have htx := hstate.txCount
    omega
  case memRreq => exact hline hstate.2.1
  case memWreq => exact hline hstate.2.1
  case memRresp => exact hline hstate.2.1
  case memWresp => exact hline hstate.2.1
  case memFinish => exact hline hstate.1
  case pcrReq => exact absurd hgood.1.1 (not_isMem_of_isCr hstate.1)
  case pcrResp => exact absurd hgood.1.1 (not_isMem_of_isCr hstate.1)
  case tx =>
    have hphase : phase s = 0 := by rw [phase, hs]
    have hlines := hstate.lines_le
    rcases hgood.1.1 with hr | hw
    · obtain ⟨-, -, -, -, hdata⟩ := hstate.read hr
      obtain ⟨hrx, -, -, htx, -⟩ := hdata hgood
      have hle := hword _ hlines
      omega
    · obtain ⟨-, htx, hdata⟩ := hstate.write hw
      obtain ⟨-, hlen, hrx⟩ := hdata hgood
      rw [hlen] at hrx
      omega

/-- **Memory packets.** In every run, a packet of whole, aligned lines has been served when the
next packet may come, exactly if it has a line; and before that it is within its time. -/
theorem served_iff (c : HTIFConf) {s : HTIF c × PacketLog c} (hs : (machine c).Reachable s)
    (hh : s.2.header = some h) (hw : WellFormed c h) :
    (s.1.Over → (Served c h s.2 ↔ packetSize h ≠ 0)) ∧
    (¬s.1.Over → packetSize h ≠ 0 → s.2.unstalled ≤ limit c h) := by
  obtain ⟨hover, hb⟩ | ⟨hnot, h', hsv⟩ := packetOk_of_reachable s hs
  · refine ⟨fun _ => ⟨fun hserved hzero => ?_, fun hne => (hb.final h hh).served ⟨hw, hne⟩⟩,
      fun hnot => absurd hover hnot⟩
    have hlen := congrArg List.length hserved.acquires
    rw [hzero, Nat.zero_div, List.length_map, ((hb.final h hh).mem hw.1).1] at hlen
    exact (total_pos c h).ne' hlen
  · refine ⟨fun hover => absurd hover hnot, fun _ hne => ?_⟩
    have heq : h' = h := Option.some.inj (hsv.packet.header.symm.trans hh)
    subst heq
    exact hsv.unstalled_le ⟨hw, hne⟩

/-- A line that is read at address 8, in the reply's words `1`, `2`, `3`, …, `8`. -/
def readLine : List (HTIFInput HTIFConf.chip) :=
  hostWord _ (header 8 7 8 cmdReadmem) ++ List.replicate 2 (readyInput _) ++
    [{ readyInput _ with grant := some ⟨true, 0, 0, memReqData HTIFConf.chip (· + 1)⟩ }] ++
    List.replicate 37 (readyInput _)

theorem served_iff_readLine :
    Served HTIFConf.chip (header 8 7 8 cmdReadmem) (after _ readLine).2 :=
  ((served_iff HTIFConf.chip (reachable_after readLine (by decide +kernel)) (by decide +kernel)
    (by decide)).1 (by decide +kernel)).mpr (by decide)

/-- A read of no lines, and the first it reads all the same. -/
def emptyRead : List (HTIFInput HTIFConf.chip) :=
  hostWord _ (header 0 7 0 cmdReadmem) ++ List.replicate 2 (readyInput _)

theorem not_served :
    ¬∀ (c : HTIFConf) (h : ℕ) (s : HTIF c × PacketLog c), (machine c).Reachable s →
      s.2.header = some h → WellFormed c h →
      s.2.acquires.length ≤ packetSize h / c.packetRamDepth := by
  intro hall
  have hle := hall HTIFConf.chip (header 0 7 0 cmdReadmem) (after _ emptyRead)
    (reachable_after emptyRead (by decide)) rfl (by decide)
  exact absurd hle (by decide)

end HTIF

end RiscvSoc
