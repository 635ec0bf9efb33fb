import Mathlib.Data.Nat.Digits.Lemmas
import RiscvSoc.Uncore.HTIF

/-!
# The clock edges of the host-target interface

What the words on the host's side and the lines on the memory's side have to do with each other,
and what one clock edge does in each of the nine states, given that the tiles and the memory keep
their promise. Between packets and while the memory is not asked, the interface is at `Rest`.
-/

namespace RiscvSoc

open Bits

namespace HTIF

variable {c : HTIFConf}

/-! ### Words and subwords -/

theorem w_mul_two_pow_subBits (c : HTIFConf) : c.w * 2 ^ c.subBits = 64 := by
  have h := c.lgW_lt
  rw [HTIFConf.w, HTIFConf.subBits, ← pow_add, Nat.add_sub_cancel' h.le]
  rfl

/-- The shifter holds the subwords of the word being received, the last one on top. -/
def ShifterOk (c : HTIFConf) (shifter : ℕ) (word : List ℕ) : Prop :=
  bits shifter 63 (64 - c.w * word.length) = Nat.ofDigits (2 ^ c.w) word

theorem shifterOk_nil (c : HTIFConf) (shifter : ℕ) : ShifterOk c shifter [] := by
  simp [ShifterOk, bits, Nat.mod_one]

variable {b : ℕ} {word : List ℕ} {ram : ℕ → ℕ}

theorem rxShifterIn_lt (s : HTIF c) (hb : b < 2 ^ c.w) : s.rxShifterIn b < 2 ^ 64 := by
  have hw : c.w ≤ 64 := Nat.le_of_dvd (by norm_num) ⟨_, (w_mul_two_pow_subBits c).symm⟩
  calc s.rxShifterIn b < 2 ^ (c.w + (64 - c.w)) := cat_lt hb (bits_lt ..)
    _ = 2 ^ 64 := by rw [Nat.add_sub_cancel' hw]

theorem ShifterOk.snoc {s : HTIF c} (h : ShifterOk c s.rxShifter word) (hb : b < 2 ^ c.w)
    (hlen : word.length < 2 ^ c.subBits) :
    ShifterOk c (s.rxShifterIn b) (word ++ [b]) := by
  have hw := w_mul_two_pow_subBits c
  have hle : c.w * (word.length + 1) ≤ 64 := hw ▸ Nat.mul_le_mul_left c.w hlen
  rw [Nat.mul_succ] at hle
  -- the older subwords are moved down by one subword
  obtain ⟨t, ht⟩ : ∃ t, 64 = c.w * word.length + c.w + t := ⟨_, (Nat.add_sub_cancel' hle).symm⟩
  have hold : s.rxShifter / 2 ^ (c.w + t) % 2 ^ (c.w * word.length) =
      Nat.ofDigits (2 ^ c.w) word := by
    have := h
    rw [ShifterOk, bits] at this
    rwa [show 64 - c.w * word.length = c.w + t by omega,
      show 63 + 1 - (c.w + t) = c.w * word.length by omega] at this
  have hdown : bits s.rxShifter 63 c.w / 2 ^ t = Nat.ofDigits (2 ^ c.w) word := by
    rw [bits, show 63 + 1 - c.w = t + c.w * word.length by omega, pow_add,
      Nat.mod_mul_right_div_self,
      Nat.div_div_eq_div_mul, ← pow_add, hold]
  have hlt : Nat.ofDigits (2 ^ c.w) word < 2 ^ (c.w * word.length) :=
    hold ▸ Nat.mod_lt _ (by positivity)
  have hup : s.rxShifterIn b / 2 ^ t = cat b (c.w * word.length) (Nat.ofDigits (2 ^ c.w) word) := by
    rw [rxShifterIn, cat, cat, show 64 - c.w = t + c.w * word.length by omega, pow_add,
      ← hdown, Nat.mul_left_comm, Nat.mul_comm, Nat.add_comm,
      Nat.add_mul_div_right _ _ (by positivity)]
    ring
  rw [ShifterOk, List.length_append, List.length_singleton, Nat.mul_succ, bits,
    show 64 - (c.w * word.length + c.w) = t by omega, hup,
    Nat.mod_eq_of_lt (by
      rw [show 63 + 1 - t = c.w + c.w * word.length by omega]
      exact cat_lt hb hlt),
    Nat.ofDigits_append, Nat.ofDigits_singleton, cat, pow_mul]
  ring

/-- The shifter has the word when its last subword comes in. -/
theorem ShifterOk.completed {s : HTIF c} (h : ShifterOk c s.rxShifter word) (hb : b < 2 ^ c.w)
    (hlen : word.length + 1 = 2 ^ c.subBits) :
    s.rxShifterIn b = Nat.ofDigits (2 ^ c.w) (word ++ [b]) := by
  have hsnoc := h.snoc hb (by omega)
  rw [ShifterOk, List.length_append, List.length_singleton, hlen, w_mul_two_pow_subBits] at hsnoc
  rw [← hsnoc]
  exact ((bits_zero_right _ _).trans (Nat.mod_eq_of_lt (rxShifterIn_lt s hb))).symm

/-! ### Lines -/

theorem ramIndex_succ (c : HTIFConf) (k : ℕ) : ramIndex c (k + 1) = k % 2 ^ c.lineBits := by
  rw [ramIndex, ← wrap_natCast c.lineBits k]
  refine wrap_congr ?_
  have h : (((k + 1) % 2 ^ c.lineBits : ℕ) : ℤ) ≡ (k + 1 : ℕ) [ZMOD 2 ^ c.lineBits] := by
    push_cast
    exact Int.mod_modEq _ _
  have h' := h.sub_right 1
  push_cast at h' ⊢
  simpa using h'

theorem lineWord_foldl {n : ℕ} (hram : ∀ k < n, ram k < 2 ^ 64) :
    (List.range n).foldl (fun data j => cat (ram j) (64 * j) data) 0 < 2 ^ (64 * n) ∧
    ∀ j < n, lineWord ((List.range n).foldl (fun data j => cat (ram j) (64 * j) data) 0) j
      = ram j := by
  induction n with
  | zero => exact ⟨by simp, fun j hj => absurd hj (Nat.not_lt_zero j)⟩
  | succ n ih =>
    obtain ⟨hlt, hword⟩ := ih fun k hk => hram k (hk.trans n.lt_succ_self)
    have hram' := hram n n.lt_succ_self
    rw [List.range_succ, List.foldl_append, List.foldl_cons, List.foldl_nil]
    have hlt' : cat (ram n) (64 * n)
        ((List.range n).foldl (fun data j => cat (ram j) (64 * j) data) 0) < 2 ^ (64 + 64 * n) :=
      cat_lt hram' hlt
    refine ⟨by rwa [Nat.mul_succ, Nat.add_comm], fun j hj => ?_⟩
    rcases Nat.lt_succ_iff_lt_or_eq.mp hj with hjn | rfl
    · rw [← hword j hjn, lineWord, lineWord, cat, bits, bits,
        show (j + 1) * 64 - 1 + 1 - j * 64 = 64 by omega]
      obtain ⟨k, rfl⟩ := Nat.exists_eq_add_of_lt hjn
      rw [show ram (j + k + 1) * 2 ^ (64 * (j + k + 1))
        = ram (j + k + 1) * 2 ^ (64 * k) * 2 ^ 64 * 2 ^ (j * 64) by ring, Nat.add_comm,
        Nat.add_mul_div_right _ _ (by positivity), Nat.add_mul_mod_self_right]
    · rw [lineWord, bits, show (j + 1) * 64 - 1 + 1 - j * 64 = 64 by omega, Nat.mul_comm j 64,
        cat_div hlt, Nat.mod_eq_of_lt hram']

theorem lineWord_memReqData (hram : ∀ k < c.packetRamDepth, ram k < 2 ^ 64) {j : ℕ}
    (hj : j < c.packetRamDepth) : lineWord (memReqData c ram) j = ram j :=
  (lineWord_foldl hram).2 j hj

/-! ### The wires, state by state -/

section Wires

variable {s : HTIF c} {i : HTIFInput c}

@[simp] theorem rxFire_of_ne (h : s.state ≠ .rx) : s.rxFire i = none := if_neg h

@[simp] theorem rxWord_of_ne (h : s.state ≠ .rx) : s.rxWord i = none := by
  rw [rxWord, rxFire_of_ne h]

@[simp] theorem rxHeader_of_ne (h : s.state ≠ .rx) : s.rxHeader i = none := by
  rw [rxHeader, rxFire_of_ne h]

@[simp] theorem readGrant_of_ne (h : s.state ≠ .memRresp) : s.readGrant i = none := if_neg h

@[simp] theorem txFire_of_ne (h : s.state ≠ .tx) : s.txFire i = none := if_neg fun ht => h ht.1

@[simp] theorem not_replyDone (h : s.state ≠ .tx) : ¬s.replyDone i := fun ht => h ht.1

@[simp] theorem not_lineDone (h : s.state ≠ .memFinish) : ¬s.lineDone i := fun ht => h ht.1

@[simp] theorem not_resetReq (h : s.state ≠ .pcrReq) (t : Fin c.nTiles) : ¬s.resetReq t :=
  fun ht => h ht.1

@[simp] theorem not_acqEnq (hr : s.state ≠ .memRreq) (hw : s.state ≠ .memWreq) : ¬s.acqEnq :=
  fun h => h.1.elim hr hw

@[simp] theorem crAccesses_of_ne (h : s.state ≠ .pcrReq) : s.crAccesses i = [] := by
  have htile : ∀ t, ¬(s.pcrReqFire i t ∨ s.resetReq t) := fun t ht =>
    h (ht.elim (fun ht => ht.1.1) fun ht => ht.1)
  have hscr : ¬s.scrReq := fun hs => h hs.1
  simp [crAccesses, htile, hscr]

/-- Away from the control registers the state is the memory's business. -/
theorem pcrNext_of_ne (hrep : ∀ t, i.pcrRep t ≠ none → s.state = .pcrResp)
    (h : s.state ≠ .pcrReq) (h' : s.state ≠ .pcrResp) :
    s.pcrNext i = (s.memState i, s.pcrReadData) := by
  have hstep : ∀ r t, s.tileStep i r t = r := fun r t => by
    have hnone : i.pcrRep t = none := by
      by_contra hne
      exact h' (hrep t hne)
    have hfire : ¬s.pcrReqFire i t := fun ht => h ht.1.1
    have hreset : ¬s.resetReq t := fun ht => h ht.1
    simp [tileStep, hnone, hfire, hreset]
  have hfold : ∀ l : List (Fin c.nTiles), l.foldl (s.tileStep i) (s.memState i, s.pcrReadData)
      = (s.memState i, s.pcrReadData) := fun l => by
    induction l with
    | nil => rfl
    | cons t l ih => rw [List.foldl_cons, hstep, ih]
  have hscr : ¬s.scrReq := fun hs => h hs.1
  rw [pcrNext, hfold, if_neg hscr]

/-- A control-register request moves on only by an access. -/
theorem pcrNext_of_pcrReq (hrep : ∀ t, i.pcrRep t ≠ none → s.state = .pcrResp)
    (h : s.state = .pcrReq) :
    (s.pcrNext i).1 = .pcrReq ∧ s.crAccesses i = [] ∨
    ((s.pcrNext i).1 = .pcrResp ∨ (s.pcrNext i).1 = .tx) ∧ s.crAccesses i ≠ [] := by
  have hnone : ∀ t, i.pcrRep t = none := fun t => by
    by_contra hne
    rw [hrep t hne] at h
    cases h
  by_cases hscr : s.scrReq
  · refine .inr ⟨.inr (by rw [pcrNext, if_pos hscr]), ?_⟩
    simp [crAccesses, hscr]
  · -- the tiles take turns, and the state is the last one's that was asked
    have hfold : ∀ l : List (Fin c.nTiles),
        (l.foldl (s.tileStep i) (s.memState i, s.pcrReadData)).1 = .pcrReq ∧
          (∀ t ∈ l, ¬(s.pcrReqFire i t ∨ s.resetReq t)) ∨
        ((l.foldl (s.tileStep i) (s.memState i, s.pcrReadData)).1 = .pcrResp ∨
          (l.foldl (s.tileStep i) (s.memState i, s.pcrReadData)).1 = .tx) ∧
          ∃ t ∈ l, s.pcrReqFire i t ∨ s.resetReq t := fun l => by
      induction l using List.reverseRecOn with
      | nil => exact .inl ⟨by simp [memState, h], fun t ht => absurd ht List.not_mem_nil⟩
      | append_singleton l t ih =>
        rw [List.foldl_append, List.foldl_cons, List.foldl_nil]
        generalize l.foldl (s.tileStep i) (s.memState i, s.pcrReadData) = r at ih ⊢
        by_cases hreset : s.resetReq t
        · refine .inr ⟨.inr (by simp [tileStep, hreset, hnone t]), t, by simp, .inr hreset⟩
        · by_cases hfire : s.pcrReqFire i t
          · exact .inr ⟨.inl (by simp [tileStep, hreset, hfire, hnone t]), t, by simp, .inl hfire⟩
          · have hsame : s.tileStep i r t = r := by simp [tileStep, hreset, hfire, hnone t]
            rw [hsame]
            rcases ih with ⟨hr, hnot⟩ | ⟨hr, t', ht', hacc⟩
            · refine .inl ⟨hr, fun t' ht' => ?_⟩
              rcases List.mem_append.mp ht' with hl | hl
              · exact hnot t' hl
              · rw [List.mem_singleton.mp hl]
                exact not_or.mpr ⟨hfire, hreset⟩
            · exact .inr ⟨hr, t', List.mem_append_left _ ht', hacc⟩
    have hpcr : (s.pcrNext i).1
        = ((List.finRange c.nTiles).foldl (s.tileStep i) (s.memState i, s.pcrReadData)).1 := by
      rw [pcrNext, if_neg hscr]
    rw [hpcr]
    rcases hfold (List.finRange c.nTiles) with ⟨hr, hnot⟩ | ⟨hr, t, ht, hacc⟩
    · refine .inl ⟨hr, ?_⟩
      have hnot' : ∀ t, ¬(s.pcrReqFire i t ∨ s.resetReq t) := fun t => hnot t (List.mem_finRange t)
      simp [crAccesses, hscr, hnot']
    · refine .inr ⟨hr, fun hnil => ?_⟩
      have hmem : (⟨some t, decide (s.cmd = cmdWritecr), s.pcrAddr⟩ : CrAccess c)
          ∈ s.crAccesses i :=
        List.mem_append_left _ (List.mem_filterMap.mpr ⟨t, ht, if_pos hacc⟩)
      rw [hnil] at hmem
      exact absurd hmem List.not_mem_nil

theorem pcrNext_of_pcrResp (h : s.state = .pcrResp) :
    (s.pcrNext i).1 = .pcrResp ∨ (s.pcrNext i).1 = .tx := by
  have hscr : ¬s.scrReq := fun hs => by
    rw [hs.1] at h
    cases h
  have hfold : ∀ l : List (Fin c.nTiles), ∀ r : HTIFState × ℕ, (r.1 = .pcrResp ∨ r.1 = .tx) →
      ((l.foldl (s.tileStep i) r).1 = .pcrResp ∨ (l.foldl (s.tileStep i) r).1 = .tx) := fun l => by
    induction l with
    | nil => exact fun r hr => hr
    | cons t l ih =>
      intro r hr
      refine ih _ ?_
      have hfire : ¬s.pcrReqFire i t := fun ht => by rw [ht.1.1] at h; cases h
      have hreset : ¬s.resetReq t := fun ht => by rw [ht.1] at h; cases h
      rcases hrep : i.pcrRep t with _ | d
      · simpa [tileStep, hfire, hreset, hrep] using hr
      · exact .inr (by simp [tileStep, hrep])
  rw [pcrNext, if_neg hscr]
  exact hfold _ _ (.inl (by simp [memState, h]))

end Wires

/-! ### The clock edge, state by state -/

section Edges

variable {s : HTIF c} {g : PacketLog c} {i : HTIFInput c}

/-- Nothing is asked of the memory, and nothing owed by it. -/
structure Rest (s : HTIF c) (g : PacketLog c) : Prop where
  acqQ : s.acqQ = none
  memAcked : s.memAcked = false
  owed : g.owed = 0

theorem Rest.acquireFire (h : Rest s g) : s.acquireFire i = none := by
  rw [HTIF.acquireFire, h.acqQ]
  exact ite_self none

theorem grant_eq_none (henv : EnvOk (s, g) i) (howed : g.owed = 0)
    (hfire : s.acquireFire i = none) : i.grant = none := by
  by_contra hne
  rcases henv.memory (Option.isSome_iff_ne_none.mpr hne) with hg | ha
  · exact absurd howed hg.ne'
  · rw [hfire] at ha
    cases ha

theorem Rest.grant (h : Rest s g) (henv : EnvOk (s, g) i) : i.grant = none :=
  grant_eq_none henv h.owed h.acquireFire

/-- The log of a cycle in which only the clock moves. -/
def tick (s : HTIF c) (i : HTIFInput c) (g : PacketLog c) : PacketLog c :=
  { g with unstalled := if s.Over ∨ s.Stalled i then g.unstalled else g.unstalled + 1 }

theorem edge_rx (hr : Rest s g) (henv : EnvOk (s, g) i) (hs : s.state = .rx) :
    (i.hostIn = none → s.next i = s ∧ g.note s i = g) ∧
    ∀ b, i.hostIn = some b →
      s.next i = { s with
        rxCount := (s.rxCount + 1) % 2 ^ c.rxCountW
        rxShifter := s.rxShifterIn b
        cmd := (s.rxHeader i).elim s.cmd fun word => bits word 3 0
        size := (s.rxHeader i).elim s.size fun word => bits word 15 4
        pos := (s.rxHeader i).elim s.pos fun word => bits word 15 (4 + c.lineBits)
        seqno := (s.rxHeader i).elim s.seqno fun word => bits word 23 16
        addr := (s.rxHeader i).elim s.addr fun word => bits word 63 24
        packetRam := (s.rxWord i).elim s.packetRam
          (Function.update s.packetRam (ramIndex c s.rxWordCount))
        state := s.rxNext (s.rxShifterIn b) } ∧
      g.note s i = (tick s i g).receive s b := by
  have hgrant := hr.grant henv
  have hacq := hr.acquireFire (i := i)
  have hpcr := pcrNext_of_ne henv.tile (by rw [hs]; decide) (by rw [hs]; decide)
  refine ⟨fun hin => ?_, fun b hin => ?_⟩
  · have hrx : s.rxFire i = none := by rw [rxFire, if_pos hs, hin]
    have hw : s.rxWord i = none := by rw [rxWord, hrx]
    have hh : s.rxHeader i = none := by rw [rxHeader, hrx]
    have hst : s.Stalled i := by simp [Stalled, hs, hin]
    constructor
    · apply HTIF.ext <;>
        simp [next, packetRamNext, memAckedNext, memState, hrx, hw, hh, hgrant, hpcr, hin, hs,
          hr.acqQ, hr.memAcked]
    · simp [PacketLog.note, hrx, hacq, hgrant, hst, hs]
  · have hrx : s.rxFire i = some b := by rw [rxFire, if_pos hs, hin]
    have hram : s.packetRamNext i = (s.rxWord i).elim s.packetRam
        (Function.update s.packetRam (ramIndex c s.rxWordCount)) := by
      rw [packetRamNext, readGrant_of_ne (by rw [hs]; decide)]
      cases s.rxWord i <;> rfl
    constructor
    · apply HTIF.ext <;>
        simp [next, hram, memAckedNext, memState, hrx, hgrant, hpcr, hin, hs, hr.acqQ,
          hr.memAcked]
    · simp [PacketLog.note, tick, hrx, hacq, hgrant, hs]

theorem edge_req (hr : Rest s g) (henv : EnvOk (s, g) i)
    (hs : s.state = .memRreq ∨ s.state = .memWreq) :
    s.next i = { s with
      acqQ := some s.acqEnqBits
      state := if s.state = .memRreq then .memRresp else .memWresp } ∧
    g.note s i = tick s i g := by
  have hgrant := hr.grant henv
  have hacq := hr.acquireFire (i := i)
  have henq : s.acqEnq := ⟨hs, hr.acqQ⟩
  have hpcr := pcrNext_of_ne henv.tile (by rcases hs with hs | hs <;> rw [hs] <;> decide)
    (by rcases hs with hs | hs <;> rw [hs] <;> decide)
  constructor
  · apply HTIF.ext <;>
      rcases hs with hs | hs <;>
      simp [next, packetRamNext, memAckedNext, memState, hgrant, hpcr, hs, hr.acqQ, hr.memAcked,
        henq]
  · rcases hs with hs | hs <;> simp [PacketLog.note, tick, hacq, hgrant, hs]

theorem edge_resp (henv : EnvOk (s, g) i) (hs : s.state = .memRresp ∨ s.state = .memWresp) :
    s.next i = { s with
      packetRam := s.packetRamNext i
      memAcked := s.memAckedNext i
      memGxid := i.grant.elim s.memGxid HTIFGrant.masterXactId
      memGsrc := i.grant.elim s.memGsrc HTIFGrant.src
      memNeedsAck := i.grant.elim s.memNeedsAck HTIFGrant.requiresAck
      acqQ := if i.acquireReady = true then none else s.acqQ
      state := s.memState i } ∧
    g.note s i = { tick s i g with
      acquires := g.acquires ++ (s.acquireFire i).toList.map fun a =>
        ⟨a.aType, a.addr, memReqData c s.packetRam⟩
      readWords := g.readWords ++ (s.readGrant i).toList.flatMap fun a =>
        (List.range c.packetRamDepth).map (lineWord a.data)
      owed := g.owed + (s.acquireFire i).toList.length - i.grant.toList.length } := by
  have hpcr := pcrNext_of_ne henv.tile (by rcases hs with hs | hs <;> rw [hs] <;> decide)
    (by rcases hs with hs | hs <;> rw [hs] <;> decide)
  constructor
  · apply HTIF.ext <;> rcases hs with hs | hs <;> simp [next, hpcr, hs]
  · rcases hs with hs | hs <;> simp [PacketLog.note, tick, hs]

theorem edge_finish (hr : Rest s g) (henv : EnvOk (s, g) i) (hs : s.state = .memFinish) :
    (i.grantAckReady = false → s.next i = s ∧ g.note s i = g) ∧
    (i.grantAckReady = true →
      s.next i = { s with
        pos := wrap (12 - c.lineBits) ((s.pos : ℤ) - 1)
        addr := (s.addr + 2 ^ c.lineBits) % 2 ^ 40
        state := if s.cmd = cmdReadmem ∨ s.pos = 1 then .tx else .rx } ∧
      g.note s i = { tick s i g with lines := g.lines + 1 }) := by
  have hgrant := hr.grant henv
  have hacq := hr.acquireFire (i := i)
  have hpcr := pcrNext_of_ne henv.tile (by rw [hs]; decide) (by rw [hs]; decide)
  refine ⟨fun hack => ?_, fun hack => ?_⟩
  · have hline : ¬s.lineDone i := by simp [lineDone, hack]
    have hst : s.Stalled i := by simp [Stalled, hs, hack]
    constructor
    · apply HTIF.ext <;>
        simp [next, packetRamNext, memAckedNext, memState, hgrant, hpcr, hs, hack, hr.acqQ,
          hr.memAcked, hline]
    · simp [PacketLog.note, hacq, hgrant, hline, hst, hs]
  · have hline : s.lineDone i := ⟨hs, hack⟩
    constructor
    · apply HTIF.ext <;>
        simp [next, packetRamNext, memAckedNext, memState, hgrant, hpcr, hs, hack, hr.acqQ,
          hr.memAcked, hline]
    · simp [PacketLog.note, tick, hacq, hgrant, hline, hs]

theorem edge_tx (hr : Rest s g) (henv : EnvOk (s, g) i) (hs : s.state = .tx) :
    (i.hostOutReady = false → s.next i = s ∧ g.note s i = g) ∧
    (i.hostOutReady = true →
      s.next i = { s with
        rxCount := if s.replyDone i then 0 else s.rxCount
        txCount := if s.replyDone i then 0 else (s.txCount + 1) % 2 ^ c.rxCountW
        state := s.memState i } ∧
      g.note s i = { tick s i g with
        sent := g.sent ++ [subword c s.txData s.txSubwordCount] }) := by
  have hgrant := hr.grant henv
  have hacq := hr.acquireFire (i := i)
  have hpcr := pcrNext_of_ne henv.tile (by rw [hs]; decide) (by rw [hs]; decide)
  refine ⟨fun hrdy => ?_, fun hrdy => ?_⟩
  · have hdone : ¬s.txDone i := by simp [txDone, hrdy]
    have hfire : s.txFire i = none := if_neg (by simp [hrdy])
    have hst : s.Stalled i := by simp [Stalled, hs, hrdy]
    constructor
    · apply HTIF.ext <;>
        simp [next, packetRamNext, memAckedNext, memState, hgrant, hpcr, hs, hdone, hfire, hr.acqQ,
          hr.memAcked, replyDone]
    · simp [PacketLog.note, hacq, hgrant, hst, hfire, hs]
  · have hfire : s.txFire i = some (subword c s.txData s.txSubwordCount) := if_pos ⟨hs, hrdy⟩
    constructor
    · apply HTIF.ext <;>
        simp [next, packetRamNext, memAckedNext, hgrant, hpcr, hs, hfire, hr.acqQ, hr.memAcked]
    · simp [PacketLog.note, tick, hacq, hgrant, hfire, hs]

theorem edge_pcr (hr : Rest s g) (henv : EnvOk (s, g) i)
    (hs : s.state = .pcrReq ∨ s.state = .pcrResp) :
    s.next i = { s with
      myReset := (s.next i).myReset
      pcrReadData := (s.pcrNext i).2
      state := (s.pcrNext i).1 } ∧
    g.note s i = { tick s i g with accesses := g.accesses ++ s.crAccesses i } := by
  have hgrant := hr.grant henv
  have hacq := hr.acquireFire (i := i)
  constructor
  · apply HTIF.ext <;>
      rcases hs with hs | hs <;>
      simp [next, packetRamNext, memAckedNext, hgrant, hs, hr.acqQ, hr.memAcked]
  · rcases hs with hs | hs <;> simp [PacketLog.note, tick, hacq, hgrant, hs]

end Edges

end HTIF

end RiscvSoc
