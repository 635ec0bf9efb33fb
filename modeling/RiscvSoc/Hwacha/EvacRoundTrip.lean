import RiscvSoc.Hwacha.EvacDrain
import RiscvSoc.Lib.Machine

/-!
# The round trip of an evacuation

A run starts with what the window and the command queues hold when evacuation starts. The address
and the data queue take something in the same cycle or not at all, and stall as they like. When
evacuation reports that it is done, the image in memory has to read back as the pending commands
with their own counts, and nothing may be left (`EvacContent.RoundTrips`).

That depends on the contents. A vector-fetch block of the command queues takes all counts there are:
the state that saves the counts of the block that is being issued looks at the mark of the last one,
and the state that saves those of the others does not. So there may be no count behind a block that
is waiting, nor behind one that is being issued and has no count with that mark
(`EvacContent.CountsInOrder`). The window drops a command that is done while `Evac`
writes its header, so only the oldest may be one (`EvacContent.NoneDone`).
-/

namespace RiscvSoc

namespace Hwacha

/-! ### Runs -/

/-- Words at consecutive addresses, eight bytes each. -/
def addressed : BitVec 64 → List Word → List (BitVec 43 × Word)
  | _, [] => []
  | a, w :: ws => (a.setWidth 43, w) :: addressed (a + 8) ws

theorem addressed_append (a : BitVec 64) (ws vs : List Word) :
    addressed a (ws ++ vs)
      = addressed a ws ++ addressed (a + 8 * BitVec.ofNat 64 ws.length) vs := by
  induction ws generalizing a with
  | nil => simp [addressed]
  | cons w ws ih =>
    have hstep : a + 8 + 8 * BitVec.ofNat 64 ws.length
        = a + 8 * BitVec.ofNat 64 (w :: ws).length := by
      rw [List.length_cons, BitVec.ofNat_add, BitVec.mul_add, BitVec.add_assoc, BitVec.add_comm 8]
      rfl
    rw [List.cons_append, addressed, ih, addressed, hstep, List.cons_append]

theorem map_snd_addressed (a : BitVec 64) (ws : List Word) :
    (addressed a ws).map Prod.snd = ws := by
  induction ws generalizing a with
  | nil => rfl
  | cons w ws ih => rw [addressed, List.map_cons, ih]

namespace EvacContent

variable (c : EvacContent)

/-- No command of the window but the oldest is done. -/
def NoneDone : Prop := ∀ p ∈ c.window.tail, p.cnts ≠ []

instance : Decidable c.NoneDone := inferInstanceAs (Decidable (∀ p ∈ c.window.tail, p.cnts ≠ []))

/-- The evacuation of some contents, with what has been written. -/
def machine : Machine (EvacSys × List (BitVec 43 × Word)) EvacInput :=
  (Machine.clocked (fun s => s.state = .idle ∧ s.aiw = aiwOf c.aiw ∧
    s.vcmdq = vcmdqOf (c.queued.map Prod.fst) c.cnt) EvacSys.next).observe []
    fun s i l => l ++ s.written i

/-- What has been written reads back as the pending commands, and nothing is left. -/
structure Evacuated (base : BitVec 64) (x : EvacSys × List (BitVec 43 × Word)) : Prop where
  image : ∃ ws, x.2 = addressed base ws ∧ readBack ws = some c.owned
  aiw : x.1.aiw = ⟨[], [], [], [], []⟩
  vcmdq : x.1.vcmdq = ⟨[], [], [], []⟩

/-- Whenever evacuation reports that it is done, it is, and it gets there if the queues take
something again and again. -/
def RoundTrips : Prop :=
  ∀ st lab, c.machine.Run st lab → (lab 0).start = true →
    (∀ t, (st t).1.reportDone = true → (∀ u < t, (st u).1.reportDone = false) →
      c.Evacuated (lab 0).base (st t)) ∧
    ((∀ t, ∃ u ≥ t, (lab u).go = true) → ∃ t, (st t).1.reportDone = true)

variable {c}

/-- Where a run stands. -/
structure Standing (c : EvacContent) (base : BitVec 64) (x : EvacSys × List (BitVec 43 × Word))
    (todo : List Word) : Prop where
  doing : Doing x.1 todo c.rest
  written : ∃ ws, x.2 = addressed base ws ∧ ws ++ todo = image c.delivered ∧
    x.1.addr = base + 8 * BitVec.ofNat 64 ws.length

end EvacContent

theorem EvacSys.out_addr (s : EvacSys) (i : EvacInput) (h : s.state ≠ .idle) :
    ((s.out i).vsdqBits = none ∧ (s.out i).addrNext = s.addr) ∨
      ∃ w, (s.out i).vsdqBits = some w ∧
        (s.out i).addrNext = if i.go then s.addr + 8 else s.addr := by
  rw [EvacSys.out]
  split
  case h_1 heq => exact absurd heq h
  case h_11 => exact .inl ⟨rfl, rfl⟩
  case h_5 =>
    rw [outCntb]
    split
    · split
      · exact .inr ⟨_, rfl, rfl⟩
      · refine .inl ?_
        split
        · split <;> exact ⟨rfl, rfl⟩
        · exact ⟨rfl, rfl⟩
    · exact .inl ⟨rfl, rfl⟩
  -- the other states hand over a word, or they stay silent
  all_goals
    first
      | rw [outCmdb] | rw [outImm1b] | rw [outImm2b] | rw [outPreVcmdq] | rw [outVcmdq]
      | rw [outVimm1q] | rw [outVimm2q] | rw [outVcntq]
    split
  all_goals first | exact .inr ⟨_, rfl, rfl⟩ | exact .inl ⟨rfl, rfl⟩ | split
  all_goals first | exact .inr ⟨_, rfl, rfl⟩ | exact .inl ⟨rfl, rfl⟩

/-- What is written in a cycle goes where the address register points, and moves it on. -/
theorem EvacSys.written_addr (s : EvacSys) (i : EvacInput) (h : s.state ≠ .idle) :
    s.written i = addressed s.addr ((s.written i).map Prod.snd) ∧
      (s.next i).addr = s.addr + 8 * BitVec.ofNat 64 (s.written i).length := by
  rw [written, next]
  rcases s.out_addr i h with ⟨hbits, haddr⟩ | ⟨w, hbits, haddr⟩
  · simp [hbits, haddr, addressed]
  · cases hi : i.go <;> simp [hbits, haddr, hi, addressed]

theorem Doing.state_ne_idle {s : EvacSys} {todo : List Word} {left : List (VCnt × Bool)}
    (h : Doing s todo left) : s.state ≠ .idle := by
  cases h <;> simp

namespace EvacContent

variable {c : EvacContent} {base : BitVec 64} {x x' : EvacSys × List (BitVec 43 × Word)}
  {todo : List Word}

theorem Standing.step {i : EvacInput} (h : c.Standing base x todo) (hs : x.1.state ≠ .done)
    (hstep : c.machine.step x i x') :
    ∃ todo', c.Standing base x' todo' ∧
      x'.1.state.rank + 4 * todo'.length + i.go.toNat ≤ x.1.state.rank + 4 * todo.length := by
  obtain ⟨hnext, hlog⟩ := hstep
  obtain ⟨todo', hdoing, hwords, hrank⟩ := h.doing.advances (i := i) hs
  obtain ⟨hput, haddr⟩ := x.1.written_addr i h.doing.state_ne_idle
  obtain ⟨ws, hws, himage, hat⟩ := h.written
  rw [← hnext] at hdoing hrank haddr
  refine ⟨todo', ⟨hdoing, ws ++ (x.1.written i).map Prod.snd, ?_, ?_, ?_⟩, hrank⟩
  · rw [hlog, hws, addressed_append, ← hat, ← hput]
  · rw [List.append_assoc, hwords, himage]
  · rw [haddr, hat, List.length_append, List.length_map, BitVec.ofNat_add, BitVec.mul_add,
      BitVec.add_assoc]

/-- The block that is being issued, as the window has it. -/
def opened (c : EvacContent) : List (SavedCmd × Bool) :=
  (c.current.map fun e => (e.1, false)).toList

theorem window_live (hok : c.Ok) (ws : List SavedCmd) (hws : ∀ p ∈ ws, p ∈ c.window ∧ p.cnts ≠ []) :
    Window (ws.map (·, true) ++ c.opened) := by
  have hmem : ∀ e ∈ c.opened, e.2 = false ∧ e ∈ c.aiw := by
    intro e he
    refine ⟨?_, List.mem_append_right _ he⟩
    obtain ⟨e', -, rfl⟩ := Option.map_eq_some_iff.mp (Option.mem_toList.mp he)
    rfl
  induction ws with
  | nil =>
    cases hc : c.opened with
    | nil => trivial
    | cons e es =>
      rw [hc] at hmem
      obtain ⟨hlast, haiw⟩ := hmem e List.mem_cons_self
      have hes : es = [] := by
        have hlen : c.opened.length ≤ 1 := by
          rw [opened]
          cases c.current <;> simp
        rw [hc] at hlen
        simpa using hlen
      subst hes
      have haiw := hok.aiw e haiw
      exact ⟨⟨haiw.1, haiw.2, fun _ => rfl⟩, fun h => (by cases hlast.symm.trans h), trivial⟩
  | cons p ws ih =>
    obtain ⟨hp, hcnts⟩ := hws p List.mem_cons_self
    have haiw := hok.aiw (p, true) (List.mem_append_left _ (List.mem_map_of_mem hp))
    exact ⟨⟨haiw.1, haiw.2, fun h => by cases h⟩, fun _ => hcnts,
      ih fun p' hp' => hws p' (List.mem_cons_of_mem _ hp')⟩

/-- What is to be written and what will be left, when the window holds nothing that is done. -/
theorem words_live (c : EvacContent) :
    windowWords (c.queued.map Prod.fst) c.cnt (c.live.map (·, true) ++ c.opened)
        = image c.delivered ∧
      windowRest (c.queued.map Prod.fst) c.cnt (c.live.map (·, true) ++ c.opened) = c.rest := by
  have hlive : ∀ ws : List SavedCmd, windowWords (c.queued.map Prod.fst) c.cnt
      (ws.map (·, true) ++ c.opened) = ws.flatMap SavedCmd.words ++
        windowWords (c.queued.map Prod.fst) c.cnt c.opened ∧
      windowRest (c.queued.map Prod.fst) c.cnt (ws.map (·, true) ++ c.opened)
        = windowRest (c.queued.map Prod.fst) c.cnt c.opened := by
    intro ws
    induction ws with
    | nil => exact ⟨rfl, rfl⟩
    | cons p ws ih => simp [windowWords, windowRest, ih.1, ih.2]
  rw [(hlive _).1, (hlive _).2]
  cases hc : c.current with
  | none => simp [opened, hc, windowWords, windowRest, delivered, rest, image]
  | some e =>
    obtain ⟨p, cs, final⟩ := e
    simp [opened, hc, windowWords, windowRest, delivered, rest, image, SavedCmd.words,
      SavedCmd.front, SavedCmd.header, SavedCmd.row]

theorem next_aiw (hok : c.Ok) (hdone : c.NoneDone) (st : EvacState) (sel : Bool)
    (addr : BitVec 64) (stale : VCmd) :
    (aiwOf c.aiw).next (.init st sel addr) stale = aiwOf (c.live.map (·, true) ++ c.opened) := by
  have hkeep : ∀ es, (aiwOf es).doDeq = false →
      (aiwOf es).next (.init st sel addr) stale = aiwOf es := by
    intro es hdeq
    simp [AIWQueues.next, hdeq, EvacOut.init, deq]
  have haiw : c.aiw = c.window.map (·, true) ++ c.opened := rfl
  rw [haiw, live]
  cases hw : c.window with
  | nil =>
    refine hkeep _ ?_
    rw [opened]
    cases c.current with
    | none => rfl
    | some e => exact doDeq_aiwOf fun h => by cases h
  | cons p ws =>
    have hws : (ws.filter fun p => !p.cnts.isEmpty) = ws := by
      rw [List.filter_eq_self]
      intro p' hp'
      have hne := hdone p' (by rw [hw]; exact hp')
      simpa using hne
    by_cases hp : p.cnts = []
    · have hmem := hok.aiw (p, true) (by rw [haiw, hw]; exact List.mem_cons_self)
      have hin : InWindow (p, true) (ws.map (·, true) ++ c.opened) :=
        ⟨hmem.1, hmem.2, fun h => by cases h⟩
      rw [List.filter_cons_of_neg (by simp [hp]), hws]
      exact next_aiwOf_done hin hp st sel stale
    · rw [List.filter_cons_of_pos (by simpa using hp), hws]
      exact hkeep _ (doDeq_aiwOf fun _ => hp)

theorem Standing.start {i : EvacInput} (hok : c.Ok) (hdone : c.NoneDone) (hinit : c.machine.init x)
    (hi : i.start = true) (hstep : c.machine.step x i x') :
    c.Standing i.base x' (image c.delivered) ∧ x'.1.state = .cmdb := by
  obtain ⟨⟨hidle, haiw, hvcmdq⟩, hlog⟩ := hinit
  obtain ⟨hnext, hlog'⟩ := hstep
  have hout : x.1.out i =
      { x.1.hold with stateNext := .cmdb, selVcmdqNext := false, addrNext := i.base } := by
    simp [EvacSys.out, hidle, hi]
  have hcmdb : x'.1 = ⟨.cmdb, false, i.base, aiwOf (c.live.map (·, true) ++ c.opened),
      vcmdqOf (c.queued.map Prod.fst) c.cnt⟩ := by
    rw [hnext, next_of_out hout, haiw, hvcmdq, ← next_aiw hok hdone .cmdb false i.base i.stale]
    rfl
  have hwindow := window_live hok c.live fun p hp => by simpa [live] using hp
  have hps : ∀ p ∈ c.queued.map Prod.fst, p.Ok := by
    intro p hp
    obtain ⟨e, he, rfl⟩ := List.mem_map.mp hp
    exact (hok.queued e he).1
  obtain ⟨hwords, hrest⟩ := c.words_live
  have hdoing := Doing.cmdb (a := i.base) (q := c.cnt) hwindow hps
  rw [hwords, hrest] at hdoing
  refine ⟨⟨by rwa [hcmdb], [], ?_, rfl, ?_⟩, by rw [hcmdb]⟩
  · have hquiet : x.1.written i = [] := by simp [EvacSys.written, hout, EvacSys.hold, EvacOut.init]
    rw [hlog', hlog]
    exact hquiet
  · simp [hcmdb]

section Run

variable {st : ℕ → EvacSys × List (BitVec 43 × Word)} {lab : ℕ → EvacInput}

/-- **The run lemma.** -/
theorem standing_of_run (hok : c.Ok) (hdone : c.NoneDone) (h : c.machine.Run st lab)
    (hstart : (lab 0).start = true) (t : ℕ) (hnot : ∀ u ≤ t, (st u).1.state ≠ .done) :
    ∃ todo, c.Standing (lab 0).base (st (t + 1)) todo := by
  induction t with
  | zero => exact ⟨_, (Standing.start hok hdone h.init hstart (h.step 0)).1⟩
  | succ t ih =>
    obtain ⟨todo, hstand⟩ := ih fun u hu => hnot u (Nat.le_succ_of_le hu)
    obtain ⟨todo', hstand', -⟩ := hstand.step (hnot (t + 1) le_rfl) (h.step (t + 1))
    exact ⟨todo', hstand'⟩

theorem finished (hok : c.Ok) (hdone : c.NoneDone) (h : c.machine.Run st lab)
    (hstart : (lab 0).start = true) {t : ℕ} (ht : (st t).1.reportDone = true)
    (hfirst : ∀ u < t, (st u).1.reportDone = false) :
    (st t).2 = addressed (lab 0).base (image c.delivered) ∧ (st t).1.aiw = aiwOf [] ∧
      (st t).1.vcmdq = vcmdqOf [] c.rest := by
  have hstate : (st t).1.state = .done := by simpa [EvacSys.reportDone] using ht
  cases t with
  | zero => cases h.init.1.1.symm.trans hstate
  | succ t =>
    obtain ⟨todo, hstand⟩ := standing_of_run hok hdone h hstart t fun u hu => by
      simpa [EvacSys.reportDone] using hfirst u (Nat.lt_succ_of_le hu)
    obtain ⟨ws, hws, himage, -⟩ := hstand.written
    generalize st (t + 1) = x at *
    obtain ⟨hdoing, -⟩ := hstand
    obtain ⟨s, l⟩ := x
    generalize c.rest = left at hdoing ⊢
    cases hdoing with
    | done =>
      rw [List.append_nil] at himage
      exact ⟨by rw [hws, himage], rfl, rfl⟩
    | _ => cases hstate

/-- What comes next is written as long as the queues take something again and again. -/
theorem Standing.reaches (h : c.machine.Run st lab) (hgo : ∀ t, ∃ u ≥ t, (lab u).go = true)
    (n : ℕ) : ∀ {t todo}, c.Standing base (st t) todo → (st t).1.state.rank + 4 * todo.length ≤ n →
      ∃ u, (st u).1.state = .done := by
  induction n using Nat.strong_induction_on with
  | _ n ih =>
    intro t todo hstand hn
    by_contra hno
    have hstep : ∀ {u todo}, c.Standing base (st u) todo → ∃ todo',
        c.Standing base (st (u + 1)) todo' ∧ (st (u + 1)).1.state.rank + 4 * todo'.length
          + (lab u).go.toNat ≤ (st u).1.state.rank + 4 * todo.length :=
      fun {u _} hstand => hstand.step (fun hd => hno ⟨u, hd⟩) (h.step u)
    obtain ⟨u, -, ⟨todo₁, hstand₁, hle₁⟩, hu⟩ := Machine.exists_of_stays
      (P := fun u => ∃ todo, c.Standing base (st u) todo ∧
        (st u).1.state.rank + 4 * todo.length ≤ n) ⟨todo, hstand, hn⟩
      (fun u ⟨todo₁, hstand₁, hle₁⟩ _ => by
        obtain ⟨todo₂, hstand₂, hle₂⟩ := hstep hstand₁
        exact ⟨todo₂, hstand₂, by omega⟩) (hgo t)
    obtain ⟨todo₂, hstand₂, hle₂⟩ := hstep hstand₁
    rw [hu, Bool.toNat_true] at hle₂
    exact hno (ih _ (by omega) hstand₂ le_rfl)

theorem exists_done (hok : c.Ok) (hdone : c.NoneDone) (h : c.machine.Run st lab)
    (hstart : (lab 0).start = true) (hgo : ∀ t, ∃ u ≥ t, (lab u).go = true) :
    ∃ t, (st t).1.reportDone = true := by
  obtain ⟨hstand, -⟩ := Standing.start hok hdone h.init hstart (h.step 0)
  obtain ⟨t, ht⟩ := hstand.reaches h hgo _ le_rfl
  exact ⟨t, by rw [EvacSys.reportDone, ht]; rfl⟩

end Run

/-! ### Which contents round-trip -/

theorem shareOut_ok {ps : List SavedCmd} (hps : ∀ p ∈ ps, p.Ok) (q : List (VCnt × Bool)) :
    ∀ p ∈ shareOut ps q, p.Ok := by
  induction ps generalizing q with
  | nil => simp [shareOut]
  | cons p ps ih =>
    intro p' hp'
    rw [shareOut, List.mem_cons] at hp'
    rcases hp' with rfl | hp'
    · have hp := hps p List.mem_cons_self
      refine ⟨hp.known, hp.imm1, hp.imm2, fun h => ?_⟩
      have hrow : p.row.deqVcntq = false := h
      simp [SavedCmd.taken, hrow]
    · exact ih (fun p hp => hps p (List.mem_cons_of_mem _ hp)) _ p' hp'

theorem delivered_ok (hok : c.Ok) : ∀ p ∈ c.delivered, p.Ok := by
  have hlive : ∀ p ∈ c.live, p.Ok := fun p hp =>
    (hok.aiw (p, true) (List.mem_append_left _ (List.mem_map_of_mem (List.mem_of_mem_filter hp)))).1
  have hqueued : ∀ p ∈ c.queued.map Prod.fst, p.Ok := by
    intro p hp
    obtain ⟨e, he, rfl⟩ := List.mem_map.mp hp
    exact (hok.queued e he).1
  rw [delivered]
  cases hc : c.current with
  | none =>
    intro p hp
    exact (List.mem_append.mp hp).elim (hlive p) (shareOut_ok hqueued _ p)
  | some e =>
    obtain ⟨p₀, cs⟩ := e
    intro p hp
    rcases List.mem_append.mp hp with hp | hp
    · exact hlive p hp
    · rcases List.mem_cons.mp hp with rfl | hp
      · obtain ⟨hp₀, hknown⟩ := hok.aiw (p₀, false)
          (List.mem_append_right _ (by simp [hc]))
        refine ⟨hp₀.known, hp₀.imm1, hp₀.imm2, fun h => ?_⟩
        cases (row_window hknown).2.1.symm.trans h
      · exact shareOut_ok hqueued _ p hp

theorem roundTrips_of_countsInOrder (hok : c.Ok) (hdone : c.NoneDone) (h : c.CountsInOrder) :
    c.RoundTrips := by
  intro st lab hrun hstart
  refine ⟨fun t ht hfirst => ?_, exists_done hok hdone hrun hstart⟩
  obtain ⟨hwritten, haiw, hvcmdq⟩ := finished hok hdone hrun hstart ht hfirst
  refine ⟨⟨_, hwritten, ?_⟩, haiw, ?_⟩
  · rw [readBack_image (delivered_ok hok), (delivered_eq_owned hok).mpr h]
  · rw [hvcmdq, rest_eq_nil hok h]
    rfl

/-- Both queues take what they are offered. -/
def alwaysReady : EvacInput := ⟨true, 0, true, true, 0⟩

theorem exists_readyRun (c : EvacContent) :
    ∃ st, c.machine.Run st (fun _ => alwaysReady) ∧ st 0 =
      (⟨.idle, false, 0, aiwOf c.aiw, vcmdqOf (c.queued.map Prod.fst) c.cnt⟩, []) :=
  Machine.exists_run ⟨rfl, rfl, rfl⟩ fun _ => alwaysReady

theorem countsInOrder_of_roundTrips (hok : c.Ok) (hdone : c.NoneDone) (h : c.RoundTrips) :
    c.CountsInOrder := by
  obtain ⟨st, hrun, -⟩ := c.exists_readyRun
  obtain ⟨hsafe, hlive⟩ := h st _ hrun rfl
  have hends := hlive fun t => ⟨t, le_rfl, rfl⟩
  have hfirst : ∀ u < Nat.find hends, (st u).1.reportDone = false := fun u hu => by
    simpa using Nat.find_min hends hu
  obtain ⟨⟨ws, hws, hread⟩, -, -⟩ := hsafe _ (Nat.find_spec hends) hfirst
  obtain ⟨hwritten, -, -⟩ := finished hok hdone hrun rfl (Nat.find_spec hends) hfirst
  have himage : ws = image c.delivered := by
    have hsame := congrArg (List.map Prod.snd) (hws.symm.trans hwritten)
    rwa [map_snd_addressed, map_snd_addressed] at hsame
  rw [himage, readBack_image (delivered_ok hok), Option.some.injEq] at hread
  exact (delivered_eq_owned hok).mp hread

/-- **When the image round-trips.** -/
theorem roundTrips_iff_countsInOrder (hok : c.Ok) (hdone : c.NoneDone) :
    c.RoundTrips ↔ c.CountsInOrder :=
  ⟨countsInOrder_of_roundTrips hok hdone, roundTrips_of_countsInOrder hok hdone⟩

/-! ### Contents -/

/-- A vector-fetch block. -/
def block (pc : Word) (cnts : List VCnt) : SavedCmd := ⟨0x00C00, some pc, none, cnts⟩

/-- A load, a block that has been issued in part, and a load that has not been issued. -/
def oneBlock : EvacContent :=
  ⟨[⟨0x20C00, some 0x1000, none, [4]⟩], some (block 0x2000 [1], [2, 3], true),
    [(⟨0x20C21, some 0x3000, none, [5]⟩, true)]⟩

theorem oneBlock_roundTrips : oneBlock.RoundTrips :=
  (roundTrips_iff_countsInOrder (c := oneBlock) ⟨by decide, by decide⟩ (by decide)).mpr
    ⟨fun _ _ _ hc hopen => by cases hc; simp at hopen, by decide⟩

/-- A block that is being issued, where a restore stopped before its last count came. -/
example : (⟨[], some (block 0x2000 [1], [2, 3], false), []⟩ : EvacContent).RoundTrips :=
  roundTrips_of_countsInOrder ⟨by decide, by decide⟩ (by decide)
    ⟨fun _ _ _ _ _ e he => (by cases he), by decide⟩

/-- Two blocks that an exception stopped while they were being restored. -/
def twoBlocks : EvacContent :=
  ⟨[], none, [(block 0x1000 [1, 2], true), (block 0x2000 [3], true)]⟩

/-- The first takes the count of the second. -/
example : twoBlocks.delivered = [block 0x1000 [1, 2, 3], block 0x2000 []] := by decide

theorem twoBlocks_not_roundTrips : twoBlocks.Ok ∧ twoBlocks.NoneDone ∧ ¬twoBlocks.RoundTrips := by
  have hok : twoBlocks.Ok := ⟨by decide, by decide⟩
  have hdone : twoBlocks.NoneDone := by decide
  refine ⟨hok, hdone, fun h => ?_⟩
  have hcounts := (countsInOrder_of_roundTrips hok hdone h).queued
  revert hcounts
  decide

/-- A block that is done waits behind another. -/
def lateBlock : EvacContent := ⟨[block 0x1000 [1], block 0x2000 []], none, []⟩

/-- Its header is written while the window drops it, and then `Evac` waits for an immediate for
ever. -/
theorem lateBlock_not_roundTrips : lateBlock.Ok ∧ ¬lateBlock.RoundTrips := by
  refine ⟨⟨by decide, by decide⟩, fun h => ?_⟩
  obtain ⟨st, hrun, hinit⟩ := lateBlock.exists_readyRun
  obtain ⟨t, ht⟩ := (h st _ hrun rfl).2 fun t => ⟨t, le_rfl, rfl⟩
  have hreach : ∀ t, (st t).1 = (fun s => s.next alwaysReady)^[t] (st 0).1 := by
    intro t
    induction t with
    | zero => rfl
    | succ t ih => rw [Function.iterate_succ_apply', ← ih]; exact (hrun.step t).1
  rw [hreach, hinit] at ht
  let stuck : EvacSys := ⟨.imm1b, false, 32, aiwOf [], vcmdqOf [] []⟩
  have hstuck : (fun s : EvacSys => s.next alwaysReady)^[6] ⟨.idle, false, 0, aiwOf lateBlock.aiw,
      vcmdqOf (lateBlock.queued.map Prod.fst) lateBlock.cnt⟩ = stuck := by decide +kernel
  have hbefore : ∀ t < 6, ((fun s : EvacSys => s.next alwaysReady)^[t] ⟨.idle, false, 0,
      aiwOf lateBlock.aiw, vcmdqOf (lateBlock.queued.map Prod.fst) lateBlock.cnt⟩).reportDone
        = false := by decide +kernel
  by_cases hlt : t < 6
  · rw [hbefore t hlt] at ht
    cases ht
  · obtain ⟨k, rfl⟩ := Nat.exists_eq_add_of_le (Nat.le_of_not_lt hlt)
    have hfixed : (fun s : EvacSys => s.next alwaysReady) stuck = stuck := rfl
    rw [Nat.add_comm, Function.iterate_add_apply, hstuck, Function.iterate_fixed hfixed] at ht
    cases ht

end EvacContent

end Hwacha

end RiscvSoc
