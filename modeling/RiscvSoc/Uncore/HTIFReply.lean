import Mathlib.Data.List.GetD
import RiscvSoc.Uncore.HTIFPacket

/-!
# What the interface takes in and sends back

The clock edges on the host's side: a header and a payload come in, control registers are
accessed, and the reply leaves. With them the invariant of `HTIFPacket` holds in every run.
-/

namespace RiscvSoc

open Bits

namespace HTIF

section Steps

variable {c : HTIFConf} {s s' : HTIF c} {g g' : PacketLog c} {h : ℕ} {i : HTIFInput c}

/-! ### The reply -/

theorem Packet.nack (hp : Packet s g h) : s.nack = decide (Malformed c h) := by
  have hL : c.lineBits ≤ 40 := by have := c.lineBits_lt; omega
  have haddr : s.addr % 2 ^ c.lineBits = packetAddr h % 2 ^ c.lineBits := by
    rw [hp.addr, Nat.mod_mod_of_dvd _ (pow_dvd_pow 2 hL), Nat.add_mul_mod_self_left]
  have hbad : s.badMemPacket = decide (packetSize h % 2 ^ c.lineBits ≠ 0 ∨
      packetAddr h % 2 ^ c.lineBits ≠ 0) := by
    rw [badMemPacket, bits_low c.lineBits_pos, bits_low c.lineBits_pos, haddr, hp.size]
    simp [bne, beq_eq_decide]
  rw [HTIF.nack, hbad, hp.cmd, hp.size]
  by_cases hm : IsMem h
  · have hiff : Malformed c h ↔ _ := iff_of_eq (if_pos hm)
    exact (if_pos hm).trans (decide_eq_decide.mpr hiff.symm)
  · refine (if_neg hm).trans ?_
    by_cases hc : IsCr h
    · have hiff : Malformed c h ↔ packetSize h ≠ 1 :=
        (iff_of_eq (if_neg hm)).trans (iff_of_eq (if_pos hc))
      refine (if_pos hc).trans ?_
      simp [hiff, bne, beq_eq_decide]
    · have hiff : Malformed c h ↔ True :=
        (iff_of_eq (if_neg hm)).trans (iff_of_eq (if_neg hc))
      refine (if_neg hc).trans ?_
      simp [hiff]

theorem Packet.txSize (hp : Packet s g h) : s.txSize = replySize c h := by
  rw [HTIF.txSize, replySize, hp.nack, hp.cmd, hp.size]
  by_cases hm : Malformed c h
  · rw [if_neg (by simp [hm]), if_neg (by simp [hm])]
  · have hcmd : (packetCmd h = cmdReadmem ∨ packetCmd h = cmdReadcr ∨ packetCmd h = cmdWritecr) ↔
        packetCmd h ≠ cmdWritemem := by
      constructor
      · rintro (hc | hc | hc) <;> rw [hc] <;> decide
      · intro hnw
        by_contra hnone
        rw [not_or, not_or] at hnone
        have hmem : ¬IsMem h := not_or.mpr ⟨hnone.1, hnw⟩
        have hcr : ¬IsCr h := not_or.mpr ⟨hnone.2.1, hnone.2.2⟩
        rw [Malformed, if_neg hmem, if_neg hcr] at hm
        exact hm trivial
    simp only [hm, hcmd, decide_false, not_false_eq_true, true_and]

theorem Packet.txCmd (hp : Packet s g h) : s.txCmd = replyCmd c h := by
  rw [HTIF.txCmd, replyCmd, hp.nack]
  simp only [decide_eq_true_eq]

theorem replySize_le_one (hc : IsCr h) : replySize c h ≤ 1 := by
  rw [replySize]
  split
  · rename_i hr
    have hmem : ¬IsMem h := by
      rintro (hm | hm) <;> rcases hc with hc | hc <;> exact absurd (hm.symm.trans hc) (by decide)
    have hsize := hr.1
    rw [Malformed, if_neg hmem, if_pos hc, not_not] at hsize
    exact hsize.le
  · exact Nat.zero_le 1

theorem replySize_of_not_good (hr : packetCmd h = cmdReadmem) (hgood : ¬Good c h) :
    replySize c h = 0 := by
  rw [replySize]
  split
  · rename_i hm
    by_contra hne
    exact hgood ⟨⟨.inl hr, hm.1⟩, hne⟩
  · rfl

theorem replySize_of_read (hr : packetCmd h = cmdReadmem) (hgood : Good c h) :
    replySize c h = packetSize h :=
  if_pos ⟨hgood.1.2, by rw [hr]; decide⟩

theorem replySize_of_write (hw : packetCmd h = cmdWritemem) : replySize c h = 0 :=
  if_neg fun hn => hn.2 hw

theorem replySize_of_other (hm : ¬IsMem h) (hc : ¬IsCr h) : replySize c h = 0 := by
  refine if_neg fun hn => hn.1 ?_
  rw [Malformed, if_neg hm, if_neg hc]
  trivial

theorem SentOk.snoc {n : ℕ} (hsent : SentOk c h g n)
    (hs : g'.sent = g.sent ++ [replySubword c h g.readWords n])
    (hr : g'.readWords = g.readWords) : SentOk c h g' (n + 1) := by
  rw [SentOk, hs, hr, hsent, List.range_succ, List.map_append, List.map_singleton]

/-- The header of the reply, once the address is where it should be. -/
theorem Packet.txData_header (hp : Packet s g h) (haddr : s.addr = replyAddr c h)
    (hzero : s.txWordCount = 0) (words : List ℕ) :
    s.txData = (replyHeader c h :: words).getD s.txWordCount 0 := by
  rw [txData, if_pos hzero, hzero, haddr, hp.seqno, hp.txSize, hp.txCmd]
  rfl

theorem ramIndex_eq_last_iff {k : ℕ} (hk : 0 < k) :
    ramIndex c k = 2 ^ c.lineBits - 1 ↔ k % 2 ^ c.lineBits = 0 := by
  obtain ⟨k, rfl⟩ := Nat.exists_eq_add_of_le' hk
  have hpos := Nat.two_pow_pos c.lineBits
  rw [ramIndex_succ]
  constructor
  · intro hlast
    rw [Nat.add_mod, hlast]
    rcases Nat.lt_or_ge 1 (2 ^ c.lineBits) with h1 | h1
    · rw [Nat.mod_eq_of_lt h1, Nat.sub_add_cancel hpos, Nat.mod_self]
    · rw [show 2 ^ c.lineBits = 1 by omega, Nat.mod_one]
  · intro hzero
    have hdvd := Nat.dvd_of_mod_eq_zero hzero
    obtain ⟨q, hq⟩ := hdvd
    obtain ⟨q, rfl⟩ : ∃ p, q = p + 1 := Nat.exists_eq_succ_of_ne_zero (by rintro rfl; omega)
    rw [Nat.mul_succ] at hq
    have hk' : k = 2 ^ c.lineBits - 1 + 2 ^ c.lineBits * q := by omega
    rw [hk', Nat.add_mul_mod_self_left, Nat.mod_eq_of_lt (by omega)]

theorem reply_over (hsv : Serving s g h) (hrest : Rest s g) (henv : EnvOk (s, g) i)
    (hs : s.state = .tx) (hrdy : i.hostOutReady = true) (hdone : s.replyDone i)
    (hnext : ¬(s.cmd = cmdReadmem ∧ s.pos ≠ 0)) (hfinal : Final c h (g.note s i)) :
    PacketOk (s.next i) (g.note s i) := by
  obtain ⟨hn, hg⟩ := (edge_tx hrest henv hs).2 hrdy
  have hword := hsv.packet.word (by rw [hs]; decide)
  have hst' : (s.next i).state = .rx := by
    rw [hn]
    simp only [memState, hs, if_pos hdone.2.1, if_neg hnext]
  have hrx' : (s.next i).rxCount = 0 := by
    rw [hn]
    exact if_pos hdone
  have hword' : (g.note s i).word = [] := by
    rw [hg]
    exact hword
  refine .inl ⟨⟨hst', ?_⟩, ⟨?_, ?_, ?_, ?_, fun h' hh' => ?_⟩⟩
  · rw [hrx']
    exact Nat.two_pow_pos _
  · rw [hn, hg]
    exact ⟨hrest.acqQ, hrest.memAcked, hrest.owed⟩
  · rw [hn]
    exact if_pos hdone
  · rw [hrx', hword']
    rfl
  · rw [hword']
    exact shifterOk_nil c _
  · have hh : (g.note s i).header = some h := by
      rw [hg]
      exact hsv.packet.header
    rw [hh] at hh'
    cases hh'
    exact hfinal

theorem txCount_succ (hlast : s.txSubwordCount = 2 ^ c.subBits - 1) :
    s.txCount + 1 = 2 ^ c.subBits * (s.txWordCount + 1) := by
  have hpos := Nat.two_pow_pos c.subBits
  have hdiv := Nat.div_add_mod s.txCount (2 ^ c.subBits)
  rw [txSubwordCount] at hlast
  rw [txWordCount, Nat.mul_succ]
  omega

theorem txSubwordCount_of_succ {k : ℕ} (hk : s.txCount + 1 = 2 ^ c.subBits * (k + 1)) :
    s.txSubwordCount = 2 ^ c.subBits - 1 ∧ s.txWordCount = k := by
  have hpos := Nat.two_pow_pos c.subBits
  rw [Nat.mul_succ] at hk
  have hcount : s.txCount = 2 ^ c.subBits - 1 + 2 ^ c.subBits * k := by omega
  rw [txSubwordCount, txWordCount, hcount, Nat.add_mul_mod_self_left, Nat.mod_eq_of_lt (by omega),
    Nat.add_mul_div_left _ _ hpos, Nat.div_eq_of_lt (by omega), Nat.zero_add]
  exact ⟨rfl, rfl⟩

theorem reply_more (hsv : Serving s g h) (hrest : Rest s g) (henv : EnvOk (s, g) i)
    (hs : s.state = .tx) (hrdy : i.hostOutReady = true) (hdone : ¬s.txDone i)
    (hlt : s.txCount + 1 < 2 ^ c.rxCountW)
    (hrep : ∀ g' : PacketLog c, g'.acquires = g.acquires → g'.payload = g.payload →
      g'.lines = g.lines → g'.readWords = g.readWords → g'.accesses = g.accesses →
      g'.owed = g.owed → g'.sent = g.sent ++ [subword c s.txData s.txSubwordCount] →
      Replying { s with txCount := s.txCount + 1 } g' h) :
    PacketOk (s.next i) (g.note s i) := by
  obtain ⟨hn, hg⟩ := (edge_tx hrest henv hs).2 hrdy
  have hnot : ¬s.replyDone i := fun hd => hdone hd.2.1
  have hn' : s.next i = { s with txCount := s.txCount + 1 } := by
    rw [hn, if_neg hnot, if_neg hnot, Nat.mod_eq_of_lt hlt]
    simp only [memState, hs, if_neg hdone]
  have hword := hsv.packet.word (by rw [hs]; decide)
  have hs' : (s.next i).state = .tx := by rw [hn', hs]
  refine .inr ⟨not_over_of_ne (by rw [hs']; decide), h, ?_, fun hgood => ?_, ?_⟩
  · rw [hn', hg]
    exact hsv.packet.congr ⟨rfl, rfl, rfl, rfl, rfl⟩ ⟨rfl, rfl, rfl⟩ (fun _ => rfl) (fun _ => rfl)
      (fun _ => rfl) fun _ => hword
  · have hle := tick_unstalled_le s i g
    have hold := hsv.pace hgood
    have hphase : phase s = 0 := by rw [phase, hs]
    have hphase' : phase (s.next i) = 0 := by rw [phase, hs']
    rw [hphase', hn', hg]
    change (tick s i g).unstalled + _ ≤ 5 * g.lines + 0 + s.rxCount + (s.txCount + 1)
    omega
  · rw [hs', hn', hg]
    exact hrep _ rfl rfl rfl rfl rfl rfl rfl

theorem count_lt {k n : ℕ} (hk : k ≤ total c h)
    (hn : n ≤ 2 ^ c.subBits * (c.packetRamDepth * k + 1)) :
    n < 2 ^ c.rxCountW := by
  have hle := packetRamDepth_mul_total_le c h
  have hk' : c.packetRamDepth * k ≤ 2 ^ 12 := (Nat.mul_le_mul_left _ hk).trans hle
  calc n ≤ 2 ^ c.subBits * (c.packetRamDepth * k + 1) := hn
    _ ≤ 2 ^ c.subBits * (2 ^ 12 + 1) := Nat.mul_le_mul_left _ (by omega)
    _ < 2 ^ c.subBits * 2 ^ 13 := Nat.mul_lt_mul_of_pos_left (by norm_num) (Nat.two_pow_pos _)
    _ = 2 ^ c.rxCountW := by rw [← pow_add, HTIFConf.rxCountW, Nat.add_comm]

section

variable (hsv : Serving s g h) (henv : EnvOk (s, g) i) (hs : s.state = .tx)
  (hrdy : i.hostOutReady = true) (hr : Replying s g h)
include hsv henv hs hrdy hr

/-- The reply to anything but a read is its header, and a word for a control register. -/
theorem serving_tx_short (hnr : packetCmd h ≠ cmdReadmem) :
    PacketOk (s.next i) (g.note s i) := by
  have hp := hsv.packet
  have hcmd : s.cmd ≠ cmdReadmem := by rwa [hp.cmd]
  have hD : 2 ≤ 2 ^ c.lineBits :=
    Nat.pow_le_pow_right two_pos (show 1 ≤ c.lineBits from c.lineBits_pos)
  have hS := Nat.two_pow_pos c.subBits
  obtain ⟨hcount, hone⟩ : s.txCount < 2 ^ c.subBits * (replySize c h + 1) ∧ replySize c h ≤ 1 := by
    by_cases hm : IsMem h
    · have hw := hm.resolve_left hnr
      rw [replySize_of_write hw]
      exact ⟨by simpa using (hr.write hw).2.1, Nat.zero_le 1⟩
    · by_cases hc : IsCr h
      · exact ⟨(hr.cr hc).2, replySize_le_one hc⟩
      · rw [replySize_of_other hm hc]
        exact ⟨by simpa using (hr.other hm hc).1, Nat.zero_le 1⟩
  have hword_le : s.txWordCount ≤ replySize c h :=
    Nat.lt_succ_iff.mp (Nat.div_lt_of_lt_mul hcount)
  -- what is sent while there is nothing but a header to send
  have hsent : ∀ g' : PacketLog c, s.txWordCount = 0 → s.addr = replyAddr c h →
      SentOk c h g s.txCount → g'.sent = g.sent ++ [subword c s.txData s.txSubwordCount] →
      g'.readWords = g.readWords → SentOk c h g' (s.txCount + 1) :=
        fun g' hzero haddr hok hs' hr' => by
    refine hok.snoc ?_ hr'
    rw [hs', hp.txData_header haddr hzero g.readWords]
    rfl
  have hwrite : packetCmd h = cmdWritemem → s.txWordCount = 0 ∧ s.addr = replyAddr c h :=
    fun hw => by
    refine ⟨Nat.le_zero.mp (replySize_of_write hw ▸ hword_le), ?_⟩
    rw [replyAddr, if_neg hnr, if_pos hw, hp.addr, (hr.write hw).1]
  have hother : ¬IsMem h → ¬IsCr h → s.txWordCount = 0 ∧ s.addr = replyAddr c h := fun hm hc => by
    refine ⟨Nat.le_zero.mp (replySize_of_other hm hc ▸ hword_le), ?_⟩
    rw [replyAddr, if_neg hnr, if_neg fun hw => hm (.inr hw), hp.addr, (hp.noMem hm).1,
      Nat.mul_zero,
      Nat.add_zero]
    exact Nat.mod_eq_of_lt (bits_lt h 63 24)
  rcases Nat.lt_or_eq_of_le (Nat.succ_le_of_lt hcount) with hlt | heq
  · -- not the last subword
    have hdone : ¬s.txDone i := by
      rintro ⟨-, hlast, hword⟩
      have hsucc := txCount_succ hlast
      rcases hword with hword | ⟨hpos, hline⟩
      · rw [hp.txSize] at hword
        rw [hword] at hsucc
        exact absurd hsucc hlt.ne
      · rw [ramIndex_eq_last_iff hpos, Nat.mod_eq_of_lt (by omega)] at hline
        omega
    have hcap : s.txCount + 1 < 2 ^ c.rxCountW := by
      have hsize : replySize c h + 1 ≤ 2 ^ 13 := (Nat.add_le_add_right hone 1).trans (by norm_num)
      calc s.txCount + 1 < 2 ^ c.subBits * (replySize c h + 1) := hlt
        _ ≤ 2 ^ c.subBits * 2 ^ 13 := Nat.mul_le_mul_left _ hsize
        _ = 2 ^ c.rxCountW := by rw [← pow_add, HTIFConf.rxCountW, Nat.add_comm]
    refine reply_more hsv hr.rest henv hs hrdy hdone hcap fun g' ha hpay hl hrw hcr ho hs' => ?_
    refine ⟨⟨hr.rest.acqQ, hr.rest.memAcked, ho.trans hr.rest.owed⟩, hl.symm ▸ hr.lines_le, ?_,
      fun hrd => absurd hrd hnr, fun hw => ?_, fun hc => ⟨hcr.symm ▸ (hr.cr hc).1, hlt⟩,
      fun hm hc => ?_⟩
    · rw [AcquiresOk, ha, hpay, hl]
      exact hr.acquires
    · obtain ⟨hlines, -, hdata⟩ := hr.write hw
      rw [replySize_of_write hw] at hlt
      refine ⟨hl.trans hlines, by simpa using hlt, fun hgood => ?_⟩
      obtain ⟨hok, hlen, hrx⟩ := hdata hgood
      exact ⟨hsent g' (hwrite hw).1 (hwrite hw).2 hok hs' hrw, hpay.symm ▸ hlen, hpay.symm ▸ hrx⟩
    · rw [replySize_of_other hm hc] at hlt
      exact ⟨by simpa using hlt,
        hsent g' (hother hm hc).1 (hother hm hc).2 (hr.other hm hc).2 hs' hrw⟩
  · -- the last subword
    obtain ⟨hlast, hword⟩ := txSubwordCount_of_succ heq
    have hsize : s.txWordCount = s.txSize := hword.trans hp.txSize.symm
    obtain ⟨-, hg⟩ := (edge_tx hr.rest henv hs).2 hrdy
    refine reply_over hsv hr.rest henv hs hrdy ⟨hs, ⟨hrdy, hlast, .inl hsize⟩, hsize⟩
      (fun hread => hcmd hread.1) ?_
    rw [hg]
    refine ⟨fun hm => ?_, fun hm => (hp.noMem hm).2, fun hc => (hr.cr hc).1, fun hc => hp.noCr hc,
      fun hgood => ?_, fun hm hc => ?_⟩
    · rw [← (hr.write (hm.resolve_left hnr)).1]
      exact hr.acquires
    · have hw := hgood.1.1.resolve_left hnr
      obtain ⟨hok, hlen, hrx⟩ := (hr.write hw).2.2 hgood
      refine ⟨?_, ?_, ?_⟩
      · rw [← heq]
        exact hsent _ (hwrite hw).1 (hwrite hw).2 hok rfl rfl
      · rw [if_neg hnr]
        exact List.length_eq_zero_iff.mpr (hp.noRead hnr)
      · rw [if_pos hw]
        exact hlen
    · rw [replySize_of_other hm hc] at heq
      have hok := hsent { tick s i g with sent := g.sent ++ [subword c s.txData s.txSubwordCount] }
        (hother hm hc).1 (hother hm hc).2 (hr.other hm hc).2 rfl rfl
      rwa [show s.txCount + 1 = 2 ^ c.subBits by simpa using heq] at hok

theorem reply_line (hread : packetCmd h = cmdReadmem)
    (hdone : s.txDone i) (hlt : g.lines < total c h)
    (hgood : Good c h → ¬s.replyDone i ∧ SentOk c h (g.note s i) (s.txCount + 1) ∧
      s.txCount + 1 = 2 ^ c.subBits * (c.packetRamDepth * g.lines + 1))
    (hbad : ¬Good c h → s.replyDone i) :
    PacketOk (s.next i) (g.note s i) := by
  obtain ⟨hn, hg⟩ := (edge_tx hr.rest henv hs).2 hrdy
  obtain ⟨hlines, hpay, hlen, -, hdata⟩ := hr.read hread
  have hp := hsv.packet
  have hword := hp.word (by rw [hs]; decide)
  have hpos : s.pos ≠ 0 := by
    rw [hp.pos]
    exact (pos_ne_zero_iff hlines hr.lines_le).mpr hlt
  have hcmd : s.cmd = cmdReadmem := hp.cmd.trans hread
  have hs' : (s.next i).state = .memRreq := by
    rw [hn]
    simp only [memState, hs, if_pos hdone,
      if_pos (show s.cmd = cmdReadmem ∧ s.pos ≠ 0 from ⟨hcmd, hpos⟩)]
  have hcount : Good c h → (s.next i).rxCount = s.rxCount ∧ (s.next i).txCount = s.txCount + 1 :=
    fun hg' => by
      obtain ⟨hnot, -, heq⟩ := hgood hg'
      rw [hn, if_neg hnot, if_neg hnot, Nat.mod_eq_of_lt (count_lt hlt.le heq.le)]
      exact ⟨rfl, rfl⟩
  have hg' : (g.note s i).lines = g.lines ∧ (g.note s i).payload = g.payload ∧
      (g.note s i).readWords = g.readWords ∧ (g.note s i).acquires = g.acquires := by
    rw [hg]
    exact ⟨rfl, rfl, rfl, rfl⟩
  refine .inr ⟨not_over_of_ne (by rw [hs']; decide), h, ?_, fun hgd => ?_, ?_⟩
  · rw [hn, hg]
    exact hp.congr ⟨rfl, rfl, rfl, rfl, rfl⟩ ⟨rfl, rfl, rfl⟩ (fun _ => rfl) (fun _ => rfl)
      (fun _ => rfl) fun _ => hword
  · have hle := tick_unstalled_le s i g
    have hold := hsv.pace hgd
    have hphase : phase s = 0 := by rw [phase, hs]
    have hphase' : phase (s.next i) = 0 := by rw [phase, hs']
    rw [hphase', (hcount hgd).1, (hcount hgd).2, hg]
    change (tick s i g).unstalled + _ ≤ 5 * g.lines + 0 + s.rxCount + (s.txCount + 1)
    omega
  · rw [hs']
    refine ⟨hread, ⟨.inl hread, fun hrd => ?_, hg'.1.symm ▸ hlt, fun hw => ?_, fun _ =>
      ⟨hg'.2.1.trans hpay, fun hbd => ?_, fun hgd => ⟨?_, ?_⟩⟩⟩, ?_, ?_, ?_⟩
    · rw [(hcount (hrd hread)).1, (hdata (hrd hread)).1, hg'.2.1, hpay]
      exact (Nat.mul_one _).symm
    · exact absurd (hread.symm.trans hw) (by decide)
    · rw [hn]
      exact if_pos (hbad hbd)
    · rw [(hcount hgd).2]
      exact (hgood hgd).2.1
    · rw [(hcount hgd).2, hg'.1, if_neg hlines.ne']
      exact (hgood hgd).2.2
    · rw [hn, hg]
      exact ⟨hr.rest.acqQ, hr.rest.memAcked, hr.rest.owed⟩
    · rw [AcquiresOk, hg'.1, hg'.2.1, hg'.2.2.2]
      exact hr.acquires
    · rw [hg'.1, hg'.2.2.1]
      exact hlen

/-- A read without a line is answered with a header after each of its lines. -/
theorem serving_tx_header (hread : packetCmd h = cmdReadmem)
    (hgood : ¬Good c h) : PacketOk (s.next i) (g.note s i) := by
  obtain ⟨hlines, hpay, hlen, hbad, -⟩ := hr.read hread
  have hp := hsv.packet
  have hcount := hbad hgood
  have hzero : s.txWordCount = 0 := Nat.div_eq_of_lt hcount
  have hsize : s.txWordCount = s.txSize := by
    rw [hzero, hp.txSize, replySize_of_not_good hread hgood]
  obtain ⟨-, hg⟩ := (edge_tx hr.rest henv hs).2 hrdy
  by_cases hlast : s.txSubwordCount = 2 ^ c.subBits - 1
  · have hdone : s.txDone i := ⟨hrdy, hlast, .inl hsize⟩
    rcases Nat.lt_or_eq_of_le hr.lines_le with hlt | heq
    · exact reply_line hsv henv hs hrdy hr hread hdone hlt (fun hgd => absurd hgd hgood)
        fun _ => ⟨hs, hdone, hsize⟩
    · have hpos : ¬s.pos ≠ 0 := by
        rw [hp.pos, pos_ne_zero_iff hlines hr.lines_le]
        omega
      refine reply_over hsv hr.rest henv hs hrdy ⟨hs, hdone, hsize⟩ (fun hn => hpos hn.2) ?_
      have hnc : ¬IsCr h := by
        rintro (hc | hc) <;> exact absurd (hread.symm.trans hc) (by decide)
      rw [hg]
      refine ⟨fun _ => ?_, fun hm => absurd (.inl hread) hm, fun hc => absurd hc hnc,
        fun _ => hp.noCr hnc, fun hgd => absurd hgd hgood, fun hm => absurd (.inl hread) hm⟩
      rw [← heq]
      exact hr.acquires
  · have hdone : ¬s.txDone i := fun hd => hlast hd.2.1
    have hlt : s.txCount + 1 < 2 ^ c.subBits := by
      rw [txSubwordCount, Nat.mod_eq_of_lt hcount] at hlast
      omega
    have hcap : s.txCount + 1 < 2 ^ c.rxCountW :=
      count_lt (Nat.zero_le (total c h)) (by simpa using hlt.le)
    refine reply_more hsv hr.rest henv hs hrdy hdone hcap fun g' ha hpy hl hrw hcr ho hs' => ?_
    refine ⟨⟨hr.rest.acqQ, hr.rest.memAcked, ho.trans hr.rest.owed⟩, hl.symm ▸ hr.lines_le, ?_,
      fun _ => ⟨hl.symm ▸ hlines, hpy.trans hpay, by rw [hrw, hl]; exact hlen, fun _ => hlt,
        fun hgd => absurd hgd hgood⟩, fun hw => ?_, fun hc => ?_,
      fun hm => absurd (.inl hread) hm⟩
    · rw [AcquiresOk, ha, hpy, hl]
      exact hr.acquires
    · exact absurd (hread.symm.trans hw) (by decide)
    · rcases hc with hc | hc <;> exact absurd (hread.symm.trans hc) (by decide)

end

theorem Packet.txSize_eq (hp : Packet s g h) (hread : packetCmd h = cmdReadmem) (hgood : Good c h) :
    s.txSize = c.packetRamDepth * total c h := by
  rw [hp.txSize, replySize_of_read hread hgood, hgood.size_eq]

namespace Replying

/-- The words of the lines before are out, and no more than those of the last line. -/
theorem words_sent (hr : Replying s g h) (hread : packetCmd h = cmdReadmem) (hgood : Good c h)
    {k : ℕ} (hk : g.lines = k + 1) : s.txWordCount ≤ c.packetRamDepth * (k + 1) ∧
      (k = 0 ∨ c.packetRamDepth * k + 1 ≤ s.txWordCount) := by
  obtain ⟨-, -, -, -, hdata⟩ := hr.read hread
  obtain ⟨-, -, -, hlt, hge⟩ := hdata hgood
  simp only [hk, Nat.add_sub_cancel] at hlt hge
  refine ⟨Nat.lt_succ_iff.mp (Nat.div_lt_of_lt_mul hlt), ?_⟩
  refine hge.imp (fun h1 => by omega) fun hge => ?_
  exact (Nat.le_div_iff_mul_le (Nat.two_pow_pos _)).mpr (by rwa [Nat.mul_comm])

/-- What leaves is the next word of the header and the lines read. -/
theorem txData_eq (hr : Replying s g h) (hp : Packet s g h) (hread : packetCmd h = cmdReadmem)
    (hgood : Good c h) : s.txData = (replyHeader c h :: g.readWords).getD s.txWordCount 0 := by
  obtain ⟨hlines, -, hlen, -, hdata⟩ := hr.read hread
  obtain ⟨-, -, hram, -, -⟩ := hdata hgood
  obtain ⟨k, hk⟩ : ∃ k, g.lines = k + 1 := Nat.exists_eq_succ_of_ne_zero hlines.ne'
  obtain ⟨hle, hfrom⟩ := hr.words_sent hread hgood hk
  simp only [hk, Nat.add_sub_cancel] at hram hlen
  rcases Nat.eq_zero_or_pos s.txWordCount with hzero | hpos
  · have hk0 : k = 0 := hfrom.resolve_right (by omega)
    refine hp.txData_header ?_ hzero _
    rw [replyAddr, if_pos hread, hp.addr, hk, hk0]
  · obtain ⟨j, hj⟩ := Nat.exists_eq_add_of_le' hpos
    have hcr : ¬(s.cmd = cmdReadcr ∨ s.cmd = cmdWritecr) := by
      rw [hp.cmd, hread]
      decide
    have hjk : c.packetRamDepth * k ≤ j := by
      rcases hfrom with rfl | hf
      · omega
      · omega
    have hmul : c.packetRamDepth * (k + 1) = c.packetRamDepth * k + c.packetRamDepth :=
      Nat.mul_succ ..
    obtain ⟨r, rfl⟩ := Nat.exists_eq_add_of_le hjk
    have hr' : r < c.packetRamDepth := by omega
    have hidx : ramIndex c s.txWordCount = r := by
      rw [hj, ramIndex_succ]
      change (c.packetRamDepth * k + r) % c.packetRamDepth = r
      rw [Nat.mul_add_mod, Nat.mod_eq_of_lt hr']
    have hrd : r < (g.readWords.drop (c.packetRamDepth * k)).length := by
      rw [List.length_drop, hlen]
      omega
    rw [txData, if_neg hpos.ne', if_neg hcr, hidx, hram r hrd, List.getElem_drop, hj,
      List.getD_cons_succ, List.getD_eq_getElem]

theorem not_txDone (hr : Replying s g h) (hp : Packet s g h) (hread : packetCmd h = cmdReadmem)
    (hgood : Good c h) (hlt : s.txCount + 1 < 2 ^ c.subBits * (c.packetRamDepth * g.lines + 1)) :
    ¬s.txDone i := by
  obtain ⟨k, hk⟩ : ∃ k, g.lines = k + 1 :=
    Nat.exists_eq_succ_of_ne_zero (hr.read hread).1.ne'
  obtain ⟨hle, hfrom⟩ := hr.words_sent hread hgood hk
  have hsize := hp.txSize_eq hread hgood
  have hklt : k + 1 ≤ total c h := hk ▸ hr.lines_le
  rintro ⟨-, hlast, hw⟩
  have hsucc := txCount_succ hlast
  have hne : s.txWordCount ≠ c.packetRamDepth * (k + 1) := fun he => by
    rw [he] at hsucc
    exact absurd hsucc (hk ▸ hlt).ne
  rcases hw with hw | ⟨hpos, hline⟩
  · have := Nat.mul_le_mul_left c.packetRamDepth hklt
    omega
  · rw [ramIndex_eq_last_iff hpos] at hline
    obtain ⟨q, hq⟩ := Nat.dvd_of_mod_eq_zero hline
    change s.txWordCount = c.packetRamDepth * q at hq
    have hqlt : q < k + 1 := Nat.lt_of_mul_lt_mul_left (hq ▸ Nat.lt_of_le_of_ne hle hne)
    have hqle := Nat.mul_le_mul_left c.packetRamDepth (Nat.lt_succ_iff.mp hqlt)
    rcases hfrom with rfl | hf
    · rw [Nat.mul_zero] at hqle
      omega
    · omega

end Replying

/-- A read is answered with the words of its lines, a line at a time. -/
theorem serving_tx_data (hsv : Serving s g h) (henv : EnvOk (s, g) i) (hs : s.state = .tx)
    (hrdy : i.hostOutReady = true) (hr : Replying s g h) (hread : packetCmd h = cmdReadmem)
    (hgood : Good c h) : PacketOk (s.next i) (g.note s i) := by
  obtain ⟨hlines, hpay, hlen, -, hdata⟩ := hr.read hread
  obtain ⟨hrx, hok, hram, hlt, hge⟩ := hdata hgood
  have hp := hsv.packet
  have hD := packetRamDepth_pos c
  obtain ⟨k, hk⟩ : ∃ k, g.lines = k + 1 := Nat.exists_eq_succ_of_ne_zero hlines.ne'
  have hmore : s.txCount + 1 < 2 ^ c.subBits * (c.packetRamDepth * g.lines + 1) →
      ¬s.txDone i := hr.not_txDone hp hread hgood
  simp only [hk, Nat.add_sub_cancel] at hram hge hlt hlen hmore
  have hword := hr.txData_eq hp hread hgood
  have hsent : ∀ g' : PacketLog c, g'.sent = g.sent ++ [subword c s.txData s.txSubwordCount] →
      g'.readWords = g.readWords → SentOk c h g' (s.txCount + 1) := fun g' hs' hr' => by
    refine hok.snoc ?_ hr'
    rw [hs', hword]
    rfl
  obtain ⟨-, hg⟩ := (edge_tx hr.rest henv hs).2 hrdy
  have hsize := hp.txSize_eq hread hgood
  have hklt : k + 1 ≤ total c h := hk ▸ hr.lines_le
  rcases Nat.lt_or_eq_of_le (Nat.succ_le_of_lt hlt) with hlt' | heq
  · have hdone : ¬s.txDone i := hmore hlt'
    have hcap : s.txCount + 1 < 2 ^ c.rxCountW := count_lt hklt hlt'.le
    refine reply_more hsv hr.rest henv hs hrdy hdone hcap fun g' ha hpy hl hrw hcr ho hs' => ?_
    refine ⟨⟨hr.rest.acqQ, hr.rest.memAcked, ho.trans hr.rest.owed⟩, hl.symm ▸ hr.lines_le, ?_,
      fun _ => ⟨hl.symm ▸ hlines, hpy.trans hpay, ?_, fun hbd => absurd hgood hbd,
        fun _ => ⟨hrx, hsent g' hs' hrw, ?_, ?_, ?_⟩⟩, fun hw => ?_, fun hc => ?_,
      fun hm => absurd (.inl hread) hm⟩
    · rw [AcquiresOk, ha, hpy, hl]
      exact hr.acquires
    · rw [hrw, hl, hk]
      exact hlen
    · rw [hrw, hl, hk]
      exact hram
    · rw [hl, hk]
      exact hlt'
    · rw [hl, hk]
      exact hge.imp_right fun hge => hge.trans (Nat.le_succ _)
    · exact absurd (hread.symm.trans hw) (by decide)
    · rcases hc with hc | hc <;> exact absurd (hread.symm.trans hc) (by decide)
  · obtain ⟨hlast, hw⟩ := txSubwordCount_of_succ heq
    have hpos : 0 < s.txWordCount := by
      rw [hw]
      positivity
    have hdone : s.txDone i := by
      refine ⟨hrdy, hlast, .inr ⟨hpos, (ramIndex_eq_last_iff hpos).mpr ?_⟩⟩
      rw [hw]
      exact Nat.mul_mod_right ..
    have hsent' : SentOk c h (g.note s i) (s.txCount + 1) := by
      rw [hg]
      exact hsent _ rfl rfl
    rcases Nat.lt_or_eq_of_le hklt with hlt' | hall
    · refine reply_line hsv henv hs hrdy hr hread hdone (hk ▸ hlt')
        (fun _ => ⟨fun hd => ?_, hsent', hk ▸ heq⟩) fun hbd => absurd hgood hbd
      have := hd.2.2
      rw [hw, hsize] at this
      exact absurd (Nat.eq_of_mul_eq_mul_left hD this) hlt'.ne
    · have hpos0 : ¬s.pos ≠ 0 := by
        rw [hp.pos, pos_ne_zero_iff hlines hr.lines_le]
        omega
      have hall' : s.txWordCount = s.txSize := by rw [hw, hall, hsize]
      refine reply_over hsv hr.rest henv hs hrdy ⟨hs, hdone, hall'⟩ (fun hn => hpos0 hn.2) ?_
      have hnc : ¬IsCr h := by
        rintro (hc | hc) <;> exact absurd (hread.symm.trans hc) (by decide)
      have hnw : packetCmd h ≠ cmdWritemem := by rw [hread]; decide
      refine ⟨fun _ => ?_, fun hm => absurd (.inl hread) hm, fun hc => absurd hc hnc, fun _ => ?_,
        fun _ => ⟨?_, ?_, ?_⟩, fun hm => absurd (.inl hread) hm⟩
      · rw [← hall, ← hk, hg]
        exact hr.acquires
      · rw [hg]
        exact hp.noCr hnc
      · rw [replySize_of_read hread hgood, hgood.size_eq, ← hall, ← heq]
        exact hsent'
      · rw [if_pos hread, hgood.size_eq, ← hall, ← hlen, hg]
        rfl
      · rw [if_neg hnw, hg]
        exact List.length_eq_zero_iff.mpr hpay

theorem serving_tx (hsv : Serving s g h) (henv : EnvOk (s, g) i) (hs : s.state = .tx) :
    PacketOk (s.next i) (g.note s i) := by
  have hr : Replying s g h := by
    have hstate := hsv.state
    simpa only [hs] using hstate
  rcases hrdy : i.hostOutReady with _ | _
  · obtain ⟨hn, hg⟩ := (edge_tx hr.rest henv hs).1 hrdy
    rw [hn, hg]
    exact .inr ⟨not_over_of_ne (by rw [hs]; decide), h, hsv⟩
  · by_cases hread : packetCmd h = cmdReadmem
    · by_cases hgood : Good c h
      · exact serving_tx_data hsv henv hs hrdy hr hread hgood
      · exact serving_tx_header hsv henv hs hrdy hr hread hgood
    · exact serving_tx_short hsv henv hs hrdy hr hread

/-! ### Control registers -/

theorem not_isMem_of_isCr (hc : IsCr h) : ¬IsMem h := by
  rintro (hm | hm) <;> rcases hc with hc | hc <;> exact absurd (hm.symm.trans hc) (by decide)

theorem Packet.acquiresOk_of_not_mem (hp : Packet s g h) (hm : ¬IsMem h) :
    AcquiresOk c h g g.lines := by
  obtain ⟨hl, ha⟩ := hp.noMem hm
  exact ⟨by rw [hl, ha]; rfl, fun hgood => absurd hgood.1.1 hm⟩

theorem serving_pcr (hsv : Serving s g h) (henv : EnvOk (s, g) i)
    (hs : s.state = .pcrReq ∨ s.state = .pcrResp) : PacketOk (s.next i) (g.note s i) := by
  have hstate := hsv.state
  have hcr : IsCr h ∧ Rest s g ∧ s.txCount = 0 := by
    rcases hs with hs | hs <;> simp only [hs] at hstate <;>
      exact ⟨hstate.1, hstate.2.1, hstate.2.2.1⟩
  obtain ⟨hc, hrest, htx⟩ := hcr
  obtain ⟨hn, hg⟩ := edge_pcr hrest henv hs
  have hp := hsv.packet
  have hm := not_isMem_of_isCr hc
  have hword := hp.word (by rcases hs with hs | hs <;> rw [hs] <;> decide)
  have hpk : Packet (s.next i) (g.note s i) h := by
    rw [hn, hg]
    exact hp.congr ⟨rfl, rfl, rfl, rfl, rfl⟩ ⟨rfl, rfl, rfl⟩ (fun _ => rfl)
      (fun hn => absurd hc hn) (fun _ => rfl) fun _ => hword
  have hrest' : Rest (s.next i) (g.note s i) := by
    rw [hn, hg]
    exact ⟨hrest.acqQ, hrest.memAcked, hrest.owed⟩
  have htx' : (s.next i).txCount = 0 := by
    rw [hn]
    exact htx
  have hst' : (s.next i).state = (s.pcrNext i).1 := by rw [hn]
  have hacc : (g.note s i).accesses = g.accesses ++ s.crAccesses i := by rw [hg]
  have hout : (s.pcrNext i).1 = .pcrReq ∧ (g.note s i).accesses = [] ∨
      ((s.pcrNext i).1 = .pcrResp ∨ (s.pcrNext i).1 = .tx) ∧ (g.note s i).accesses ≠ [] := by
    rcases hs with hs | hs <;> simp only [hs] at hstate
    · rcases pcrNext_of_pcrReq henv.tile hs with ⟨hr, ha⟩ | ⟨hr, ha⟩
      · exact .inl ⟨hr, by rw [hacc, hstate.2.2.2, ha]; rfl⟩
      · exact .inr ⟨hr, by rw [hacc]; simp [ha]⟩
    · exact .inr ⟨pcrNext_of_pcrResp hs, by rw [hacc]; simp [hstate.2.2.2]⟩
  have hpace : Good c h → (g.note s i).unstalled + 2 ^ c.subBits
      ≤ 5 * (g.note s i).lines + phase (s.next i) + (s.next i).rxCount + (s.next i).txCount :=
    fun hgood => absurd hgood.1.1 hm
  rcases hout with ⟨hr, ha⟩ | ⟨hr | hr, ha⟩ <;> rw [← hst'] at hr
  · refine .inr ⟨not_over_of_ne (by rw [hr]; decide), h, hpk, hpace, ?_⟩
    rw [hr]
    exact ⟨hc, hrest', htx', ha⟩
  · refine .inr ⟨not_over_of_ne (by rw [hr]; decide), h, hpk, hpace, ?_⟩
    rw [hr]
    exact ⟨hc, hrest', htx', ha⟩
  · refine .inr ⟨not_over_of_ne (by rw [hr]; decide), h, hpk, hpace, ?_⟩
    rw [hr]
    refine ⟨hrest', (hpk.noMem hm).1.trans_le (Nat.zero_le _), hpk.acquiresOk_of_not_mem hm,
      fun hrd => absurd (.inl hrd) hm, fun hw => absurd (.inr hw) hm, fun _ => ⟨ha, ?_⟩,
      fun _ hn => absurd hc hn⟩
    rw [htx']
    positivity

/-! ### The packet comes in -/

theorem lineRequest_append {payload : List ℕ} {j : ℕ}
    (hj : c.packetRamDepth * (j + 1) ≤ payload.length) (words : List ℕ) :
    lineRequest c h (payload ++ words) j = lineRequest c h payload j := by
  rw [Nat.mul_succ] at hj
  have hlen : c.packetRamDepth ≤ (payload.drop (c.packetRamDepth * j)).length := by
    rw [List.length_drop]
    omega
  rw [lineRequest, lineRequest, List.drop_append_of_le_length (by omega),
    List.take_append_of_le_length hlen]

theorem AcquiresOk.append {k : ℕ} (ha : AcquiresOk c h g k) {words : List ℕ}
    (hk : Good c h → c.packetRamDepth * k ≤ g.payload.length) (hacq : g'.acquires = g.acquires)
    (hpay : g'.payload = g.payload ++ words) : AcquiresOk c h g' k := by
  refine ⟨hacq ▸ ha.1, fun hgood => ?_⟩
  rw [hacq, hpay, ha.2 hgood]
  refine List.map_congr_left fun j hj => (lineRequest_append ?_ words).symm
  exact (Nat.mul_le_mul_left _ (List.mem_range.mp hj)).trans (hk hgood)

theorem RamOk.snoc {ram : ℕ → ℕ} {words : List ℕ} (hram : RamOk ram words) (x : ℕ) :
    RamOk (Function.update ram words.length x) (words ++ [x]) := by
  intro j hj
  rcases Nat.lt_or_ge j words.length with hlt | hge
  · rw [Function.update_of_ne hlt.ne, hram j hlt, List.getElem_append_left]
  · have heq : j = words.length := by
      rw [List.length_append, List.length_singleton] at hj
      omega
    subst heq
    rw [Function.update_self, List.getElem_concat_length]
    rfl

theorem receive_of_not_last {b : ℕ} (hlast : ¬s.rxLastSub) :
    g.receive s b = { g with word := g.word ++ [b] } := if_neg hlast

namespace Receiving

section

variable (hr : Receiving s g h)
include hr

theorem rxWordCount : s.rxWordCount = g.payload.length + 1 := by
  rw [HTIF.rxWordCount, hr.rxCount, Nat.mul_add_div (Nat.two_pow_pos _),
    Nat.div_eq_of_lt hr.word_lt, Nat.add_zero]

theorem rxLastSub_iff :
    s.rxLastSub ↔ g.word.length + 1 = 2 ^ c.subBits := by
  have hpos := Nat.two_pow_pos c.subBits
  rw [rxLastSub, hr.rxCount, Nat.mul_add_mod, Nat.mod_eq_of_lt hr.word_lt]
  omega

theorem rxCount_lt : s.rxCount + 1 < 2 ^ c.rxCountW := by
  refine count_lt (h := h) hr.lines_lt ?_
  have hw := hr.word_lt
  have hp := hr.payload_lt
  calc s.rxCount + 1 ≤ 2 ^ c.subBits * (g.payload.length + 1 + 1) := by
        rw [hr.rxCount, Nat.mul_succ _ (g.payload.length + 1)]
        omega
    _ ≤ 2 ^ c.subBits * (c.packetRamDepth * (g.lines + 1) + 1) :=
        Nat.mul_le_mul_left _ (by omega)

theorem ramIndex_eq (hfrom : c.packetRamDepth * g.lines ≤ g.payload.length) :
    ramIndex c s.rxWordCount = (g.payload.drop (c.packetRamDepth * g.lines)).length := by
  have hlt := hr.payload_lt
  rw [Nat.mul_succ] at hlt
  obtain ⟨r, hr'⟩ := Nat.exists_eq_add_of_le hfrom
  rw [hr.rxWordCount, ramIndex_succ, List.length_drop, hr']
  change (c.packetRamDepth * g.lines + r) % c.packetRamDepth = _
  rw [Nat.mul_add_mod, Nat.mod_eq_of_lt (by omega), Nat.add_sub_cancel_left]

/-- The payload of a write ends with a line, and only then the line does. -/
theorem length_of_rxDone (hp : Packet s g h) (hgood : Good c h) {cmd : ℕ}
    (hdone : s.rxDone cmd) : g.payload.length + 1 = c.packetRamDepth * (g.lines + 1) := by
  have hlt := hr.payload_lt
  obtain ⟨-, hend⟩ := hdone
  rw [hr.rxWordCount, if_neg (Nat.succ_ne_zero _), hp.size] at hend
  obtain ⟨q, hq⟩ : ∃ q, g.payload.length + 1 = c.packetRamDepth * q := by
    rcases hend with hend | hend
    · exact ⟨_, hend.trans hgood.size_eq⟩
    · exact Nat.dvd_of_mod_eq_zero hend
  have hqle : q ≤ g.lines + 1 := Nat.le_of_mul_le_mul_left (hq ▸ hlt) (packetRamDepth_pos c)
  have hqgt : g.lines < q := by
    have hfrom := (hr.data hgood).1
    exact Nat.lt_of_mul_lt_mul_left (a := c.packetRamDepth) (by omega)
  rw [hq, show q = g.lines + 1 by omega]

end

end Receiving

/-- What a complete word of the payload leaves. -/
structure WordTaken (s : HTIF c) (g : PacketLog c) (h : ℕ) (s' : HTIF c) (g' : PacketLog c) :
    Prop where
  packet : Packet s' g' h
  rest : Rest s' g'
  length : g'.payload.length = g.payload.length + 1
  word : g'.word = []
  lines : g'.lines = g.lines
  sent : g'.sent = g.sent
  accesses : g'.accesses = []
  txCount : s'.txCount = 0
  rxCount : s'.rxCount = 2 ^ c.subBits * (g'.payload.length + 1)
  acquires : AcquiresOk c h g' g.lines
  data : Good c h → RamOk s'.packetRam (g'.payload.drop (c.packetRamDepth * g.lines))
  pace : Good c h → g'.unstalled + 2 ^ c.subBits ≤ 5 * g'.lines + s'.rxCount + s'.txCount

variable {b : Fin (2 ^ c.w)}

theorem wordTaken (hsv : Serving s g h) (hr : Receiving s g h) (henv : EnvOk (s, g) i)
    (hs : s.state = .rx) (hheader : s.rxHeader i = none) (hin : i.hostIn = some b)
    (hlast : s.rxLastSub) :
    WordTaken s g h (s.next i) (g.note s i) ∧ (s.next i).state = s.rxNext (s.rxShifterIn b) := by
  obtain ⟨hn, hg⟩ := (edge_rx hr.rest henv hs).2 b hin
  have hp := hsv.packet
  have hb : (b : ℕ) < 2 ^ c.w := b.isLt
  have hcap := hr.rxCount_lt
  have hcount := hr.rxWordCount
  have hlen := hr.rxLastSub_iff.mp hlast
  have hlog : (tick s i g).receive s b = { tick s i g with
      word := [], payload := g.payload ++ [s.rxShifterIn b] } := by
    rw [PacketLog.receive, if_pos hlast, if_neg (by rw [hcount]; exact Nat.succ_ne_zero _),
      hr.shifter.completed hb hlen]
    rfl
  have hrxw : s.rxWord i = some (s.rxShifterIn b) := by
    rw [rxWord, rxFire, if_pos hs, hin]
    exact if_pos hlast
  rw [hheader, hrxw] at hn
  rw [hlog] at hg
  have hpay : (g.note s i).payload = g.payload ++ [s.rxShifterIn b] := by rw [hg]
  have hplen : (g.note s i).payload.length = g.payload.length + 1 := by
    rw [hpay, List.length_append, List.length_singleton]
  have htx' : (s.next i).txCount = 0 := by
    rw [hn]
    exact hr.txCount
  have hrx' : (s.next i).rxCount = s.rxCount + 1 := by
    rw [hn]
    exact Nat.mod_eq_of_lt hcap
  refine ⟨⟨?_, ?_, hplen, ?_, ?_, ?_, ?_, htx', ?_, ?_, fun hgood => ?_, fun hgood => ?_⟩, ?_⟩
  · rw [hn, hg]
    refine ⟨hp.header, hp.cmd, hp.size, hp.seqno, hp.addr, hp.pos, hp.noMem, hp.noCr, hp.noRead,
      fun _ => rfl, fun x hx => ?_⟩
    rcases List.mem_append.mp hx with hx | hx
    · exact hp.payload x hx
    · rw [List.mem_singleton.mp hx]
      exact rxShifterIn_lt s hb
  · rw [hn, hg]
    exact ⟨hr.rest.acqQ, hr.rest.memAcked, hr.rest.owed⟩
  · rw [hg]
  · rw [hg]
    rfl
  · rw [hg]
    rfl
  · rw [hg]
    exact hr.accesses
  · rw [hrx', hplen, hr.rxCount, Nat.mul_succ _ (g.payload.length + 1)]
    omega
  · exact hr.acquires.append (fun hgood => (hr.data hgood).1) (by rw [hg]; rfl) hpay
  · obtain ⟨hfrom, hram, -⟩ := hr.data hgood
    rw [hpay, List.drop_append_of_le_length hfrom, hn]
    change RamOk (Function.update s.packetRam (ramIndex c s.rxWordCount) (s.rxShifterIn b)) _
    rw [hr.ramIndex_eq hfrom]
    exact hram.snoc _
  · have hle := tick_unstalled_le s i g
    have hold := hsv.pace hgood
    have hphase : phase s = 0 := by rw [phase, hs]
    have htx := hr.txCount
    rw [hrx', htx', hg]
    change (tick s i g).unstalled + _ ≤ 5 * g.lines + (s.rxCount + 1) + 0
    omega
  · rw [hn]

/-- With the word a line is complete, or the whole payload. -/
theorem WordTaken.packetOk_of_rxDone (hw : WordTaken s g h s' g') (hr : Receiving s g h)
    (hp : Packet s g h) {cmd : ℕ} (hdone : s.rxDone cmd)
    (hst : s'.state = if packetCmd h = cmdWritemem then .memWreq else .pcrReq) :
    PacketOk s' g' := by
  rcases hr.cmd with hwr | hwr <;> rw [hwr] at hst
  · have hs' : s'.state = .memWreq := hst
    refine .inr ⟨not_over_of_ne (by rw [hs']; decide), h, hw.packet, fun hgood => ?_, ?_⟩
    · have hphase' : phase s' = 0 := by rw [phase, hs']
      rw [hphase']
      exact hw.pace hgood
    · rw [hs']
      refine ⟨hwr, ⟨.inr hwr, fun _ => hw.rxCount, hw.lines.symm ▸ hr.lines_lt, fun _ =>
        ⟨hw.txCount, ?_, fun hgood => ⟨?_, ?_, ?_⟩⟩, fun hrd => ?_⟩, hw.rest,
        hw.lines.symm ▸ hw.acquires⟩
      · rw [hw.length, hw.lines]
        exact hr.payload_lt
      · rw [hw.length, hw.lines]
        exact hr.length_of_rxDone hp hgood hdone
      · rw [hw.lines]
        exact hw.data hgood
      · rw [hw.sent]
        exact (hr.data hgood).2.2
      · exact absurd (hwr.symm.trans hrd) (by decide)
  · have hs' : s'.state = .pcrReq := hst
    refine .inr ⟨not_over_of_ne (by rw [hs']; decide), h, hw.packet, fun hgood => ?_, ?_⟩
    · exact absurd hgood.1.1 (not_isMem_of_isCr (.inr hwr))
    · rw [hs']
      exact ⟨.inr hwr, hw.rest, hw.txCount, hw.accesses⟩

theorem WordTaken.packetOk_of_not_rxDone (hw : WordTaken s g h s' g') (hr : Receiving s g h)
    (hlast : s.rxLastSub) {cmd : ℕ} (hdone : ¬s.rxDone cmd) (hs' : s'.state = .rx) :
    PacketOk s' g' := by
  have hover' : ¬s'.Over := fun ho => by
    have hlt := ho.2
    rw [hw.rxCount, Nat.mul_succ] at hlt
    omega
  have hmore : ¬(g.payload.length + 1) % c.packetRamDepth = 0 := fun hzero => by
    refine hdone ⟨hlast, ?_⟩
    rw [hr.rxWordCount, if_neg (Nat.succ_ne_zero _)]
    exact .inr hzero
  refine .inr ⟨hover', h, hw.packet, fun hgood => ?_, ?_⟩
  · have hphase' : phase s' = 0 := by rw [phase, hs']
    rw [hphase']
    exact hw.pace hgood
  · rw [hs']
    refine ⟨hw.rest, hr.cmd, hw.txCount, ?_, ?_, ?_, hw.lines.symm ▸ hw.acquires, hw.accesses,
      hw.lines.symm ▸ hr.lines_lt, ?_, fun hgood => ⟨?_, ?_, ?_⟩⟩
    · rw [hw.rxCount, hw.word]
      rfl
    · rw [hw.word]
      exact Nat.two_pow_pos _
    · rw [hw.word]
      exact shifterOk_nil c _
    · rw [hw.length, hw.lines]
      refine Nat.lt_of_le_of_ne hr.payload_lt fun heq => hmore ?_
      rw [heq]
      exact Nat.mul_mod_right ..
    · rw [hw.length, hw.lines]
      exact (hr.data hgood).1.trans (Nat.le_succ _)
    · rw [hw.lines]
      exact hw.data hgood
    · rw [hw.sent]
      exact (hr.data hgood).2.2

theorem serving_rx_word (hsv : Serving s g h) (hr : Receiving s g h) (henv : EnvOk (s, g) i)
    (hs : s.state = .rx) (hheader : s.rxHeader i = none) (hin : i.hostIn = some b)
    (hlast : s.rxLastSub) : PacketOk (s.next i) (g.note s i) := by
  obtain ⟨hw, hst'⟩ := wordTaken hsv hr henv hs hheader hin hlast
  have hcmd : (if s.rxWordCount = 0 then bits (s.rxShifterIn b) 3 0 else s.cmd) = packetCmd h := by
    rw [if_neg (by rw [hr.rxWordCount]; exact Nat.succ_ne_zero _), hsv.packet.cmd]
  by_cases hdone : s.rxDone (bits (s.rxShifterIn b) 3 0)
  · simp only [rxNext, if_pos hdone, hcmd] at hst'
    refine hw.packetOk_of_rxDone hr hsv.packet hdone (hst'.trans ?_)
    rcases hr.cmd with hwr | hwr <;> rw [hwr] <;> rfl
  · exact hw.packetOk_of_not_rxDone hr hlast hdone (hst'.trans (if_neg hdone))

theorem serving_rx_subword (hsv : Serving s g h) (hr : Receiving s g h) (henv : EnvOk (s, g) i)
    (hs : s.state = .rx) (hover : ¬s.Over) (hheader : s.rxHeader i = none) (hin : i.hostIn = some b)
    (hlast : ¬s.rxLastSub) : PacketOk (s.next i) (g.note s i) := by
  obtain ⟨hn, hg⟩ := (edge_rx hr.rest henv hs).2 b hin
  have hp := hsv.packet
  have hrxw : s.rxWord i = none := by
    rw [rxWord, rxFire, if_pos hs, hin]
    exact if_neg hlast
  have hnext : s.rxNext (s.rxShifterIn b) = .rx := if_neg fun hd => hlast hd.1
  rw [hheader, hrxw, hnext] at hn
  rw [receive_of_not_last hlast] at hg
  have hwl : g.word.length + 1 < 2 ^ c.subBits := by
    rw [hr.rxLastSub_iff] at hlast
    have := hr.word_lt
    omega
  have hrx' : (s.next i).rxCount = s.rxCount + 1 := by
    rw [hn]
    exact Nat.mod_eq_of_lt hr.rxCount_lt
  have hs' : (s.next i).state = .rx := by rw [hn]
  have hover' : ¬(s.next i).Over := fun ho => by
    have hlt := ho.2
    exact hover ⟨hs, by omega⟩
  have hpk : Packet (s.next i) (g.note s i) h := by
    rw [hn, hg]
    exact ⟨hp.header, hp.cmd, hp.size, hp.seqno, hp.addr, hp.pos, hp.noMem, hp.noCr, hp.noRead,
      fun hne => absurd rfl hne, hp.payload⟩
  refine .inr ⟨hover', h, hpk, fun hgood => ?_, ?_⟩
  · have hle := tick_unstalled_le s i g
    have hold := hsv.pace hgood
    have hphase : phase s = 0 := by rw [phase, hs]
    have hphase' : phase (s.next i) = 0 := by rw [phase, hs']
    rw [hphase', hrx', hn, hg]
    change (tick s i g).unstalled + _ ≤ 5 * g.lines + 0 + (s.rxCount + 1) + s.txCount
    omega
  · rw [hs']
    have hcount' : (s.next i).rxCount
        = 2 ^ c.subBits * (g.payload.length + 1) + (g.word ++ [(b : ℕ)]).length := by
      rw [hrx', List.length_append, List.length_singleton, ← Nat.add_assoc, ← hr.rxCount]
    rw [hn] at hcount'
    rw [hn, hg]
    refine ⟨⟨hr.rest.acqQ, hr.rest.memAcked, hr.rest.owed⟩, hr.cmd, hr.txCount, hcount', ?_,
      hr.shifter.snoc b.isLt hr.word_lt, hr.acquires, hr.accesses, hr.lines_lt, hr.payload_lt,
      hr.data⟩
    change (g.word ++ [(b : ℕ)]).length < _
    rw [List.length_append, List.length_singleton]
    exact hwl

theorem serving_rx (hsv : Serving s g h) (henv : EnvOk (s, g) i) (hs : s.state = .rx)
    (hover : ¬s.Over) : PacketOk (s.next i) (g.note s i) := by
  have hr : Receiving s g h := by
    have hstate := hsv.state
    simpa only [hs] using hstate
  rcases hin : i.hostIn with _ | b
  · obtain ⟨hn, hg⟩ := (edge_rx hr.rest henv hs).1 hin
    rw [hn, hg]
    exact .inr ⟨hover, h, hsv⟩
  · have hheader : s.rxHeader i = none := by
      rw [rxHeader, rxFire, if_pos hs, hin]
      refine if_neg fun heq => hover ⟨hs, ?_⟩
      have hpos := Nat.two_pow_pos c.subBits
      omega
    by_cases hlast : s.rxLastSub
    · exact serving_rx_word hsv hr henv hs hheader hin hlast
    · exact serving_rx_subword hsv hr henv hs hover hheader hin hlast

/-- The header is complete, and the packet under way. -/
structure HeaderTaken (w : ℕ) (s' : HTIF c) (g' : PacketLog c) : Prop where
  log : g' = { PacketLog.empty c with header := some w }
  packet : Packet s' g' w
  rest : Rest s' g'
  rxCount : s'.rxCount = 2 ^ c.subBits
  txCount : s'.txCount = 0

theorem headerTaken (hb : Between s g) (henv : EnvOk (s, g) i) (hover : s.Over)
    (hin : i.hostIn = some b) (hlast : g.word.length + 1 = 2 ^ c.subBits) :
    ∃ w, HeaderTaken w (s.next i) (g.note s i) ∧ (s.next i).state = s.rxNext w := by
  have hs := hover.1
  have hS := Nat.two_pow_pos c.subBits
  obtain ⟨hn, hg⟩ := (edge_rx hb.rest henv hs).2 b hin
  obtain ⟨w, hw⟩ : ∃ w, w = s.rxShifterIn b := ⟨_, rfl⟩
  have hzero : s.rxWordCount = 0 := Nat.div_eq_of_lt hover.2
  have hsub : s.rxLastSub := by
    rw [rxLastSub, Nat.mod_eq_of_lt hover.2, hb.rxCount]
    omega
  have hheader : s.rxHeader i = some w := by
    rw [rxHeader, rxFire, if_pos hs, hin, hw]
    exact if_pos (by rw [hb.rxCount]; omega)
  have hlog : (tick s i g).receive s b = { PacketLog.empty c with header := some w } := by
    have howed : (tick s i g).owed = 0 := hb.rest.owed
    rw [PacketLog.receive, if_pos hsub, if_pos hzero, hw, hb.shifter.completed b.isLt hlast, howed]
    rfl
  rw [hlog] at hg
  rw [hheader, ← hw] at hn
  refine ⟨w, ⟨hg, ?_, ?_, ?_, ?_⟩, ?_⟩
  · rw [hn, hg]
    refine ⟨rfl, rfl, rfl, rfl, ?_, ?_, fun _ => ⟨rfl, rfl⟩, fun _ => rfl, fun _ => rfl,
      fun _ => rfl,
      fun x hx => absurd hx List.not_mem_nil⟩
    · change bits w 63 24 = (packetAddr w + 2 ^ c.lineBits * 0) % 2 ^ 40
      rw [Nat.mul_zero, Nat.add_zero]
      exact (Nat.mod_eq_of_lt (bits_lt w 63 24)).symm
    · change bits w 15 (4 + c.lineBits) = wrap _ ((total c w : ℤ) - (0 : ℕ))
      rw [Nat.cast_zero, sub_zero]
      exact pos_init c w
  · rw [hn, hg]
    exact ⟨hb.rest.acqQ, hb.rest.memAcked, rfl⟩
  · have hcap : 2 ^ c.subBits < 2 ^ c.rxCountW :=
      count_lt (h := w) (Nat.zero_le _) (by rw [Nat.mul_zero, Nat.zero_add, Nat.mul_one])
    rw [hn]
    change (s.rxCount + 1) % _ = _
    rw [hb.rxCount, hlast, Nat.mod_eq_of_lt hcap]
  · rw [hn]
    exact hb.txCount
  · rw [hn]

namespace HeaderTaken

variable {w : ℕ}

section

variable (ht : HeaderTaken w s' g')
include ht

theorem pace : g'.unstalled + 2 ^ c.subBits
    ≤ 5 * g'.lines + phase s' + s'.rxCount + s'.txCount := by
  rw [ht.rxCount, ht.log]
  change 0 + _ ≤ _
  omega

theorem lines : g'.lines = 0 := by rw [ht.log]; rfl

theorem payload : g'.payload = [] := by rw [ht.log]; rfl

theorem accesses : g'.accesses = [] := by rw [ht.log]; rfl

theorem acquires : AcquiresOk c w g' g'.lines := by
  rw [ht.lines, ht.log]
  exact ⟨rfl, fun _ => rfl⟩

theorem sent : SentOk c w g' s'.txCount := by
  rw [ht.txCount, ht.log]
  rfl

theorem packetOk_of_payload (hd : packetCmd w = cmdWritemem ∨ packetCmd w = cmdWritecr)
    (hs' : s'.state = .rx) :
    PacketOk s' g' := by
  have hrx := ht.rxCount
  have hword : g'.word = [] := by rw [ht.log]; rfl
  have hover' : ¬s'.Over := fun ho => by
    have := ho.2
    omega
  refine .inr ⟨hover', w, ht.packet, fun _ => ht.pace, ?_⟩
  rw [hs']
  refine ⟨ht.rest, hd, ht.txCount, ?_, ?_, ?_, ht.acquires, ht.accesses,
    ht.lines.symm ▸ total_pos c w, ?_, fun _ => ⟨?_, ?_, ?_⟩⟩
  · rw [hrx, ht.payload, hword]
    exact (Nat.mul_one _).symm
  · rw [hword]
    exact Nat.two_pow_pos c.subBits
  · rw [hword]
    exact shifterOk_nil c _
  · rw [ht.payload, ht.lines]
    exact Nat.mul_pos (packetRamDepth_pos c) Nat.one_pos
  · rw [ht.lines]
    exact Nat.zero_le _
  · rw [ht.payload, List.drop_nil]
    exact fun j hj => absurd hj (Nat.not_lt_zero j)
  · rw [ht.log]
    rfl

theorem packetOk_of_readmem (hr : packetCmd w = cmdReadmem)
    (hs' : s'.state = .memRreq) : PacketOk s' g' := by
  have hnw : packetCmd w ≠ cmdWritemem := by rw [hr]; decide
  refine .inr ⟨not_over_of_ne (by rw [hs']; decide), w, ht.packet, fun _ => ht.pace, ?_⟩
  rw [hs']
  refine ⟨hr, ⟨.inl hr, fun _ => ?_, ht.lines.symm ▸ total_pos c w, fun hw => absurd hw hnw,
    fun _ => ⟨ht.payload, fun _ => ht.txCount, fun _ => ⟨ht.sent, ?_⟩⟩⟩, ht.rest, ht.acquires, ?_⟩
  · rw [ht.rxCount, ht.payload]
    exact (Nat.mul_one _).symm
  · rw [ht.txCount, if_pos ht.lines]
  · rw [ht.lines, ht.log]
    rfl

theorem packetOk_of_cr (hc : IsCr w) (hs' : s'.state = .pcrReq) :
    PacketOk s' g' := by
  refine .inr ⟨not_over_of_ne (by rw [hs']; decide), w, ht.packet, fun _ => ht.pace, ?_⟩
  rw [hs']
  exact ⟨hc, ht.rest, ht.txCount, ht.accesses⟩

/-- What no part of the device serves is answered at once. -/
theorem packetOk_of_other (hm : ¬IsMem w) (hc : ¬IsCr w)
    (hs' : s'.state = .tx) : PacketOk s' g' := by
  refine .inr ⟨not_over_of_ne (by rw [hs']; decide), w, ht.packet, fun _ => ht.pace, ?_⟩
  rw [hs']
  refine ⟨ht.rest, ht.lines.trans_le (Nat.zero_le _), ht.acquires, fun hr => absurd (.inl hr) hm,
    fun hw => absurd (.inr hw) hm, fun hc' => absurd hc' hc, fun _ _ => ⟨?_, ht.sent⟩⟩
  rw [ht.txCount]
  exact Nat.two_pow_pos c.subBits

end

end HeaderTaken

theorem header_step (hb : Between s g) (henv : EnvOk (s, g) i) (hover : s.Over)
    {b : Fin (2 ^ c.w)} (hin : i.hostIn = some b) (hlast : g.word.length + 1 = 2 ^ c.subBits) :
    PacketOk (s.next i) (g.note s i) := by
  obtain ⟨w, ht, hst'⟩ := headerTaken hb henv hover hin hlast
  have hzero : s.rxWordCount = 0 := Nat.div_eq_of_lt hover.2
  have hsub : s.rxLastSub := by
    rw [rxLastSub, Nat.mod_eq_of_lt hover.2, hb.rxCount]
    omega
  have hdone : s.rxDone (bits w 3 0) ↔
      packetCmd w ≠ cmdWritemem ∧ packetCmd w ≠ cmdWritecr := by
    rw [rxDone, if_pos hzero, and_iff_right hsub]
    rfl
  by_cases hd : packetCmd w = cmdWritemem ∨ packetCmd w = cmdWritecr
  · refine ht.packetOk_of_payload hd (hst'.trans (if_neg fun h' => ?_))
    exact hd.elim (hdone.mp h').1 (hdone.mp h').2
  · rw [not_or] at hd
    have hst'' : (s.next i).state = if packetCmd w = cmdReadmem then .memRreq
        else if packetCmd w = cmdWritemem then .memWreq
        else if packetCmd w = cmdReadcr ∨ packetCmd w = cmdWritecr then .pcrReq else .tx := by
      rw [hst']
      simp only [rxNext, if_pos (hdone.mpr hd), if_pos hzero]
      rfl
    rw [if_neg hd.1] at hst''
    by_cases hr : packetCmd w = cmdReadmem
    · exact ht.packetOk_of_readmem hr (hst''.trans (if_pos hr))
    · rw [if_neg hr] at hst''
      by_cases hc : IsCr w
      · exact ht.packetOk_of_cr hc (hst''.trans (if_pos hc))
      · exact ht.packetOk_of_other (fun hm => hm.elim hr hd.1) hc (hst''.trans (if_neg hc))

theorem between_step (hb : Between s g) (henv : EnvOk (s, g) i) (hover : s.Over) :
    PacketOk (s.next i) (g.note s i) := by
  have hs := hover.1
  rcases hin : i.hostIn with _ | b
  · obtain ⟨hn, hg⟩ := (edge_rx hb.rest henv hs).1 hin
    rw [hn, hg]
    exact .inl ⟨hover, hb⟩
  have hlt : g.word.length < 2 ^ c.subBits := hb.rxCount ▸ hover.2
  rcases Nat.lt_or_eq_of_le (Nat.succ_le_of_lt hlt) with hmore | hlast
  · obtain ⟨hn, hg⟩ := (edge_rx hb.rest henv hs).2 b hin
    have hsub : ¬s.rxLastSub := by
      rw [rxLastSub, Nat.mod_eq_of_lt hover.2, hb.rxCount]
      omega
    have hheader : s.rxHeader i = none := by
      rw [rxHeader, rxFire, if_pos hs, hin]
      exact if_neg (by rw [hb.rxCount]; omega)
    have hrxw : s.rxWord i = none := by
      rw [rxWord, rxFire, if_pos hs, hin]
      exact if_neg hsub
    have hnext : s.rxNext (s.rxShifterIn b) = .rx := if_neg fun hd => hsub hd.1
    rw [hheader, hrxw, hnext] at hn
    rw [receive_of_not_last hsub] at hg
    have hrx' : (s.next i).rxCount = g.word.length + 1 := by
      have hcap : s.rxCount + 1 < 2 ^ c.rxCountW := by
        refine count_lt (h := 0) (Nat.zero_le _) ?_
        rw [hb.rxCount, Nat.mul_zero, Nat.zero_add, Nat.mul_one]
        exact hmore.le
      rw [hn]
      change (s.rxCount + 1) % _ = _
      rw [Nat.mod_eq_of_lt hcap, hb.rxCount]
    refine .inl ⟨⟨by rw [hn], hrx'.trans_lt hmore⟩, ?_⟩
    have hrx'' : (s.next i).rxCount = (g.word ++ [(b : ℕ)]).length := by
      rw [hrx', List.length_append, List.length_singleton]
    rw [hn] at hrx''
    rw [hn, hg]
    refine ⟨⟨hb.rest.acqQ, hb.rest.memAcked, hb.rest.owed⟩, hb.txCount, hrx'',
      hb.shifter.snoc b.isLt hlt, fun h' hh => ?_⟩
    have hf := hb.final h' hh
    exact ⟨hf.mem, hf.noMem, hf.cr, hf.noCr, hf.good, hf.other⟩
  · exact header_step hb henv hover hin hlast

/-- **The step lemma of the interface.** -/
theorem packetOk_step (hok : PacketOk s g) (henv : EnvOk (s, g) i) :
    PacketOk (s.next i) (g.note s i) := by
  rcases hok with ⟨hover, hb⟩ | ⟨hover, h, hsv⟩
  · exact between_step hb henv hover
  · cases hs : s.state with
    | rx => exact serving_rx hsv henv hs hover
    | pcrReq => exact serving_pcr hsv henv (.inl hs)
    | pcrResp => exact serving_pcr hsv henv (.inr hs)
    | memRreq => exact serving_req hsv henv (.inl hs)
    | memWreq => exact serving_req hsv henv (.inr hs)
    | memRresp => exact serving_rresp hsv henv hs
    | memWresp => exact serving_wresp hsv henv hs
    | memFinish => exact serving_finish hsv henv hs
    | tx => exact serving_tx hsv henv hs

end Steps

theorem packetOk_of_reachable {c : HTIFConf} :
    ∀ s, (machine c).Reachable s → PacketOk s.1 s.2 := by
  refine Machine.invariant (fun s hs => ?_) fun s i s' _ hok hstep => ?_
  · obtain ⟨hreset, hlog⟩ := hs
    rw [hlog]
    refine .inl ⟨⟨hreset.state, ?_⟩, ⟨hreset.acqQ, hreset.memAcked, rfl⟩, hreset.txCount, ?_, ?_,
      fun h hh => absurd hh nofun⟩
    · rw [hreset.rxCount]
      exact Nat.two_pow_pos _
    · exact hreset.rxCount
    · exact shifterOk_nil c _
  · obtain ⟨henv, hnext, hnote⟩ := hstep
    rw [hnext, hnote]
    exact packetOk_step hok henv

end HTIF

end RiscvSoc
