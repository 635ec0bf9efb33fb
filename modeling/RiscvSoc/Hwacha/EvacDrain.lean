import RiscvSoc.Hwacha.EvacImage

/-!
# An evacuation from cycle to cycle

Where `Evac` stands in each of its states, what is still to be written there, and that every cycle
writes the front of it. The words that are to come are a function of what the queues hold (`Doing`),
so a state needs no history. A cycle in which both queues take what they are offered gets closer to
the end, also where `Evac` only moves on (`Doing.advances`).

For a command of the command queues that is what `Evac` takes of the counts, whoever they belong to.
-/

namespace RiscvSoc

namespace Hwacha

open AIWQueues EvacSys

/-! ### What the queues hold -/

/-- The queues of the window for some commands with their marks. -/
def aiwOf (es : List (SavedCmd × Bool)) : AIWQueues where
  cmdb := es.map (·.1.cmd)
  imm1b := es.flatMap (·.1.imm1.toList)
  imm2b := es.flatMap (·.1.imm2.toList)
  cntb := es.flatMap (·.1.cnts)
  numcntb := es.map fun e => (e.1.cnts.length, e.2)

/-- The command queues for some commands and some counts. -/
def vcmdqOf (ps : List SavedCmd) (q : List (VCnt × Bool)) : VCMDQueues where
  cmd := ps.map (·.cmd)
  imm1 := ps.flatMap (·.imm1.toList)
  imm2 := ps.flatMap (·.imm2.toList)
  cnt := q

theorem row_window {code : BitVec 8} (h : (EvacRow.find code).deqIrcmdb = true) :
    (EvacRow.find code).deqIrcntb = true ∧ (EvacRow.find code).deqVcntq = true ∧
      (EvacRow.find code).deqIrimm1b = (EvacRow.find code).deqVimm1q ∧
      (EvacRow.find code).deqIrimm2b = (EvacRow.find code).deqVimm2q ∧
      (AIWRow.find code).deqIrimm1b = (EvacRow.find code).deqVimm1q ∧
      (AIWRow.find code).deqIrimm2b = (EvacRow.find code).deqVimm2q := by
  have htable : ∀ e ∈ EvacRow.table, e.2.deqIrcmdb = true →
      e.2.deqIrcntb = true ∧ e.2.deqVcntq = true ∧ e.2.deqIrimm1b = e.2.deqVimm1q ∧
        e.2.deqIrimm2b = e.2.deqVimm2q ∧ (AIWRow.find e.1).deqIrimm1b = e.2.deqVimm1q ∧
        (AIWRow.find e.1).deqIrimm2b = e.2.deqVimm2q := by decide
  cases hrow : EvacRow.table.lookup code with
  | none =>
    rw [EvacRow.find, hrow] at h
    cases h
  | some r =>
    obtain ⟨l₁, l₂, hl, -⟩ := List.lookup_eq_some_iff.mp hrow
    have hmem : (code, r) ∈ EvacRow.table := by
      rw [hl]
      simp
    have hfind : EvacRow.find code = r := by
      rw [EvacRow.find, hrow]
      rfl
    rw [hfind] at h ⊢
    exact htable _ hmem h

/-! ### What is still to be written -/

/-- One command of the window, and those behind it. -/
structure InWindow (e : SavedCmd × Bool) (es : List (SavedCmd × Bool)) : Prop where
  ok : e.1.Ok
  known : e.1.row.deqIrcmdb = true
  /-- The block that is being issued is the newest. -/
  newest : e.2 = false → es = []

theorem InWindow.row {p : SavedCmd} {last : Bool} {es : List (SavedCmd × Bool)}
    (h : InWindow (p, last) es) :
    p.row.deqIrcntb = true ∧ p.row.deqVcntq = true ∧ p.row.deqIrimm1b = p.row.deqVimm1q ∧
      p.row.deqIrimm2b = p.row.deqVimm2q ∧ (AIWRow.find p.cmd.code).deqIrimm1b = p.row.deqVimm1q ∧
      (AIWRow.find p.cmd.code).deqIrimm2b = p.row.deqVimm2q :=
  row_window h.known

/-- No command is done, and the block that is being issued is the newest. -/
def Window : List (SavedCmd × Bool) → Prop
  | [] => True
  | e :: es => InWindow e es ∧ (e.2 = true → e.1.cnts ≠ []) ∧ Window es

section Words

variable (ps : List SavedCmd) (q : List (VCnt × Bool))

/-- The words for the window and the command queues. -/
def windowWords : List (SavedCmd × Bool) → List Word
  | [] => image (shareOut ps q)
  | e :: es => e.1.words ++ if e.2 then windowWords es
      else (throughMark q).map cntWord ++ image (shareOut ps (afterMark q))

/-- What follows a command of the window. -/
def behindWindow (last : Bool) (es : List (SavedCmd × Bool)) : List Word :=
  if last then windowWords ps q es
  else (throughMark q).map cntWord ++ image (shareOut ps (afterMark q))

/-- The counts of a command of the command queues, and what follows it. -/
def behindQueued (p : SavedCmd) : List Word :=
  (p.taken q).map cntWord ++ image (shareOut ps (p.left q))

/-- What is left of the count queue in the end. -/
def windowRest : List (SavedCmd × Bool) → List (VCnt × Bool)
  | [] => leftOver ps q
  | e :: es => if e.2 then windowRest es else leftOver ps (afterMark q)

end Words

/-! ### Where `Evac` stands -/

/-- The states of an evacuation, with the words that are still to be written, and with what will be
left of the count queue. -/
inductive Doing : EvacSys → List Word → List (VCnt × Bool) → Prop
  | cmdb {es ps q a} : Window es → (∀ p ∈ ps, p.Ok) →
      Doing ⟨.cmdb, false, a, aiwOf es, vcmdqOf ps q⟩ (windowWords ps q es) (windowRest ps q es)
  | imm1b {p last es ps q a w} : Window ((p, last) :: es) → (∀ p ∈ ps, p.Ok) → p.imm1 = some w →
      Doing ⟨.imm1b, false, a, aiwOf ((p, last) :: es), vcmdqOf ps q⟩
        (w :: (p.imm2.toList ++ (p.cnts.map cntWord ++ behindWindow ps q last es)))
        (windowRest ps q ((p, last) :: es))
  | imm2b {p last es ps q a w} : Window ((p, last) :: es) → (∀ p ∈ ps, p.Ok) → p.imm2 = some w →
      Doing ⟨.imm2b, false, a, aiwOf ((p, last) :: es), vcmdqOf ps q⟩
        (w :: (p.cnts.map cntWord ++ behindWindow ps q last es)) (windowRest ps q ((p, last) :: es))
  | cntb {p last es ps q a} : InWindow (p, last) es → Window es → (∀ p ∈ ps, p.Ok) →
      Doing ⟨.cntb, false, a, aiwOf ((p, last) :: es), vcmdqOf ps q⟩
        (p.cnts.map cntWord ++ behindWindow ps q last es) (windowRest ps q ((p, last) :: es))
  | preVcmdq {ps q a} : (∀ p ∈ ps, p.Ok) →
      Doing ⟨.preVcmdq, false, a, aiwOf [], vcmdqOf ps q⟩
        ((throughMark q).map cntWord ++ image (shareOut ps (afterMark q)))
        (leftOver ps (afterMark q))
  | vcmdq {ps q a} : (∀ p ∈ ps, p.Ok) →
      Doing ⟨.vcmdq, true, a, aiwOf [], vcmdqOf ps q⟩ (image (shareOut ps q)) (leftOver ps q)
  | vimm1q {p ps q a w} : (∀ p' ∈ p :: ps, p'.Ok) → p.imm1 = some w →
      Doing ⟨.vimm1q, true, a, aiwOf [], vcmdqOf (p :: ps) q⟩
        (w :: (p.imm2.toList ++ behindQueued ps q p)) (leftOver (p :: ps) q)
  | vimm2q {p ps q a w} : (∀ p' ∈ p :: ps, p'.Ok) → p.imm2 = some w →
      Doing ⟨.vimm2q, true, a, aiwOf [],
          { vcmdqOf (p :: ps) q with imm1 := (vcmdqOf ps q).imm1 }⟩
        (w :: behindQueued ps q p) (leftOver (p :: ps) q)
  | vcntq {p ps q a} : (∀ p' ∈ p :: ps, p'.Ok) → p.row.deqVcntq = true →
      Doing ⟨.vcntq, true, a, aiwOf [], { vcmdqOf ps q with cmd := (vcmdqOf (p :: ps) q).cmd }⟩
        (behindQueued ps q p) (leftOver (p :: ps) q)
  | done {q a} : Doing ⟨.done, true, a, aiwOf [], vcmdqOf [] q⟩ [] q

/-! ### What each state does -/

namespace EvacSys

variable {s : EvacSys} {i : EvacInput} {r : EvacRow} {w : Word}

theorem outCmdb_cons {c : VCmd} {l : List VCmd} (hst : s.state = .cmdb) (hq : s.aiw.cmdb = c :: l)
    (hrow : s.row i = r) (hknown : r.deqIrcmdb = true) (hcnt : r.deqIrcntb = true) :
    s.out i = s.write i (header r.isPrefetch r.deqIrimm1b r.deqIrimm2b true c)
      (afterIr r.deqIrimm1b r.deqIrimm2b true) := by
  simp only [out, hst, outCmdb, hq, hrow, hknown, hcnt, if_true, Bool.not_true, Bool.and_false]
  rfl

variable {l : List Word}

theorem outImm1b_cons (hst : s.state = .imm1b) (hq : s.aiw.imm1b = w :: l) (hrow : s.row i = r)
    (himm : r.deqIrimm1b = true) (hcnt : r.deqIrcntb = true) :
    s.out i = s.write i w (afterIr false r.deqIrimm2b true) := by
  simp only [out, hst, outImm1b, hq, hrow, himm, hcnt, if_true, Bool.not_true, Bool.and_false]
  rfl

theorem outImm2b_cons (hst : s.state = .imm2b) (hq : s.aiw.imm2b = w :: l) (hrow : s.row i = r)
    (himm : r.deqIrimm2b = true) (hcnt : r.deqIrcntb = true) :
    s.out i = s.write i w (afterIr false false true) := by
  simp only [out, hst, outImm2b, hq, hrow, himm, hcnt, if_true, Bool.not_true, Bool.and_false]
  rfl

theorem outCntb_pos {n : ℕ} {b : Bool} {l : List (ℕ × Bool)} {c : VCnt} {t : List VCnt}
    (hst : s.state = .cntb) (hnum : s.aiw.numcntb = (n + 1, b) :: l)
    (hq : s.aiw.cntb = c :: t) (hrow : s.row i = r) (hcnt : r.deqIrcntb = true) :
    s.out i =
      { s.write i (cntWord c) .cntb with cntbReady := i.go, updateNumcnt := i.go } := by
  simp [out, hst, outCntb, hnum, hq, hrow, hcnt]

theorem outCntb_last {l : List (ℕ × Bool)} (hst : s.state = .cntb)
    (hnum : s.aiw.numcntb = (0, true) :: l) :
    s.out i = { s.hold with stateNext := .cmdb } := by
  simp [out, hst, outCntb, hnum]

theorem outCntb_open {l : List (ℕ × Bool)} (hst : s.state = .cntb)
    (hnum : s.aiw.numcntb = (0, false) :: l) (hrow : s.row i = r) :
    s.out i =
      { s.hold with
        stateNext := .preVcmdq
        cmdbReady := true
        imm1bReady := r.deqIrimm1b
        imm2bReady := r.deqIrimm2b
        numcntbReady := true } := by
  simp [out, hst, outCntb, hnum, hrow]

theorem outVcmdq_cons {c : VCmd} {l : List VCmd} (hst : s.state = .vcmdq)
    (hq : s.vcmdq.cmd = c :: l) (hrow : s.row i = r) (hknown : r.deqVcmdq = true) :
    s.out i =
      { s.write i (header r.isPrefetch r.deqVimm1q r.deqVimm2q r.deqVcntq c)
          (afterV r.deqVimm1q r.deqVimm2q (r.deqVcntq && !s.vcmdq.cnt.isEmpty)) with
        vcmdReady := i.go && !r.deqVimm1q && !r.deqVimm2q &&
          !(r.deqVcntq && !s.vcmdq.cnt.isEmpty) } := by
  simp only [out, hst, outVcmdq, hq, hrow, hknown, if_true, Bool.true_and, Bool.not_and,
    Bool.and_assoc]

theorem outVimm1q_cons (hst : s.state = .vimm1q) (hq : s.vcmdq.imm1 = w :: l) (hrow : s.row i = r)
    (himm : r.deqVimm1q = true) :
    s.out i =
      { s.write i w (afterV false r.deqVimm2q (r.deqVcntq && !s.vcmdq.cnt.isEmpty)) with
        vcmdReady := i.go && !r.deqVimm2q && !(r.deqVcntq && !s.vcmdq.cnt.isEmpty)
        vimm1Ready := i.go } := by
  simp only [out, hst, outVimm1q, hq, hrow, himm, if_true, Bool.true_and]

theorem outVimm2q_cons (hst : s.state = .vimm2q) (hq : s.vcmdq.imm2 = w :: l) (hrow : s.row i = r)
    (himm : r.deqVimm2q = true) :
    s.out i =
      { s.write i w (afterV false false (r.deqVcntq && !s.vcmdq.cnt.isEmpty)) with
        vcmdReady := i.go && !(r.deqVcntq && !s.vcmdq.cnt.isEmpty)
        vimm2Ready := i.go } := by
  simp only [out, hst, outVimm2q, hq, hrow, himm, if_true, Bool.true_and]

theorem outVcntq_cons {c : VCnt} {b : Bool} {l : List (VCnt × Bool)}
    (hst : s.state = .vcntq) (hq : s.vcmdq.cnt = (c, b) :: l) (hrow : s.row i = r)
    (hcnt : r.deqVcntq = true) :
    s.out i =
      { s.write i (cntWord c) (if r.vf then .vcntq else .vcmdq) with
        vcmdReady := i.go && !r.vf
        vcntReady := i.go } := by
  simp only [out, hst, outVcntq, hq, hrow, hcnt, if_true, Bool.true_and]

end EvacSys

/-- How far a state is from the next word. -/
def EvacState.rank : EvacState → ℕ
  | .cntb => 3
  | .cmdb | .preVcmdq | .vcntq => 2
  | .vcmdq => 1
  | _ => 0

/-- A cycle writes what comes next, and gets closer to the end if the queues take it. -/
def Advances (s : EvacSys) (i : EvacInput) (todo : List Word) (left : List (VCnt × Bool)) : Prop :=
  ∃ todo', Doing (s.next i) todo' left ∧ (s.written i).map Prod.snd ++ todo' = todo ∧
    (s.next i).state.rank + 4 * todo'.length + i.go.toNat ≤ s.state.rank + 4 * todo.length

attribute [simp] EvacSys.write EvacSys.hold EvacOut.init AIWQueues.next VCMDQueues.next

section Steps

variable {i : EvacInput} {es : List (SavedCmd × Bool)} {ps : List SavedCmd} {q : List (VCnt × Bool)}
  {a : BitVec 64} {p : SavedCmd} {last : Bool} {w : Word}

theorem doDeq_aiwOf (h : last = true → p.cnts ≠ []) :
    (aiwOf ((p, last) :: es)).doDeq = false := by
  cases last
  · simp [aiwOf, doDeq]
  · simpa [aiwOf, doDeq] using h rfl

theorem doDeq_nil : (aiwOf []).doDeq = false := rfl

theorem EvacState.rank_le (st : EvacState) : st.rank ≤ 3 := by
  cases st <;> decide

variable {s : EvacSys} {todo : List Word} {left : List (VCnt × Bool)}

theorem Advances.of_write (hout : (s.out i).vsdqBits = some w) (h : Doing s (w :: todo) left)
    (hgo : i.go = true → Doing (s.next i) todo left) (hstall : i.go = false → s.next i = s) :
    Advances s i (w :: todo) left := by
  cases hi : i.go
  · refine ⟨w :: todo, ?_, ?_, ?_⟩
    · rwa [hstall hi]
    · simp [written, hout, hi]
    · simp [hstall hi, hi]
  · refine ⟨todo, hgo hi, ?_, ?_⟩
    · simp [written, hout, hi]
    · have hrank := (s.next i).state.rank_le
      simp only [List.length_cons, hi, Bool.toNat_true]
      omega

theorem Advances.of_quiet (hout : (s.out i).vsdqBits = none) (h : Doing (s.next i) todo left)
    (hrank : (s.next i).state.rank < s.state.rank) : Advances s i todo left := by
  refine ⟨todo, h, ?_, ?_⟩
  · simp [written, hout]
  · have hgo := Bool.toNat_le i.go
    omega

theorem next_of_out {o : EvacOut} (hout : s.out i = o) :
    s.next i = ⟨o.stateNext, o.selVcmdqNext, o.addrNext, s.aiw.next o i.stale, s.vcmdq.next o⟩ := by
  rw [EvacSys.next, hout]

theorem next_of_write {st : EvacState} (hout : s.out i = s.write i w st)
    (hdeq : s.aiw.doDeq = false) :
    s.next i = if i.go then { s with state := st, addr := s.addr + 8 } else s := by
  cases hi : i.go <;>
    simp [EvacSys.next, hout, deq, hdeq, hi]

theorem Advances.of_write_only {st : EvacState} (hout : s.out i = s.write i w st)
    (hdeq : s.aiw.doDeq = false) (h : Doing s (w :: todo) left)
    (hgo : Doing { s with state := st, addr := s.addr + 8 } todo left) :
    Advances s i (w :: todo) left := by
  have hnext := next_of_write hout hdeq
  refine .of_write (by rw [hout]; rfl) h (fun hi => ?_) fun hi => ?_
  · rw [hnext, if_pos hi]
    exact hgo
  · rw [hnext, hi]
    rfl

section

variable (hin : InWindow (p, last) es) (hcnts : last = true → p.cnts ≠ []) (htail : Window es)
  (hps : ∀ p ∈ ps, p.Ok)
include hin hcnts htail hps

/-- The state behind the first immediate of a command of the window. -/
theorem doing_afterImm1b :
    Doing ⟨afterIr false p.row.deqVimm2q true, false, a, aiwOf ((p, last) :: es), vcmdqOf ps q⟩
      (p.imm2.toList ++ (p.cnts.map cntWord ++ behindWindow ps q last es))
      (windowRest ps q ((p, last) :: es)) := by
  rw [← hin.ok.imm2]
  cases himm : p.imm2 with
  | none => exact .cntb hin htail hps
  | some w => exact .imm2b ⟨hin, hcnts, htail⟩ hps himm

/-- The state behind the last word in front of the immediates. -/
theorem doing_afterIr :
    Doing ⟨afterIr p.row.deqVimm1q p.row.deqVimm2q true, false, a,
        aiwOf ((p, last) :: es), vcmdqOf ps q⟩
      (p.imm1.toList ++ (p.imm2.toList ++ (p.cnts.map cntWord ++ behindWindow ps q last es)))
      (windowRest ps q ((p, last) :: es)) := by
  have hfirst := hin.ok.imm1
  cases himm : p.imm1 with
  | none =>
    rw [himm] at hfirst
    rw [← hfirst]
    exact doing_afterImm1b hin hcnts htail hps
  | some w =>
    rw [himm] at hfirst
    rw [← hfirst]
    exact .imm1b ⟨hin, hcnts, htail⟩ hps himm

end

theorem advances_cmdb (hes : Window es) (hps : ∀ p ∈ ps, p.Ok) :
    Advances ⟨.cmdb, false, a, aiwOf es, vcmdqOf ps q⟩ i (windowWords ps q es)
      (windowRest ps q es) := by
  cases es with
  | nil =>
    have hnext : EvacSys.next ⟨.cmdb, false, a, aiwOf [], vcmdqOf ps q⟩ i
        = ⟨.vcmdq, true, a, aiwOf [], vcmdqOf ps q⟩ := by
      simp [EvacSys.next, EvacSys.out, outCmdb, aiwOf, vcmdqOf, deq, doDeq]
    refine .of_quiet rfl ?_ ?_
    · rw [hnext]
      exact .vcmdq hps
    · rw [hnext]
      exact Nat.lt_succ_self _
  | cons e es =>
    obtain ⟨p, last⟩ := e
    obtain ⟨hin, hcnts, htail⟩ := hes
    obtain ⟨hcnt, hvcnt, himm1, himm2, -, -⟩ := hin.row
    have hout := outCmdb_cons
      (s := ⟨.cmdb, false, a, aiwOf ((p, last) :: es), vcmdqOf ps q⟩) (i := i) (r := p.row) rfl
      rfl rfl hin.known hcnt
    have hheader : p.header
        = header p.row.isPrefetch p.row.deqVimm1q p.row.deqVimm2q true p.cmd := by
      rw [SavedCmd.header, hvcnt]
    rw [himm1, himm2] at hout
    have hwords : windowWords ps q ((p, last) :: es) = p.header :: (p.imm1.toList ++
        (p.imm2.toList ++ (p.cnts.map cntWord ++ behindWindow ps q last es))) := by
      simp [windowWords, SavedCmd.words, SavedCmd.front, behindWindow]
    have hdoing : Doing ⟨.cmdb, false, a, aiwOf ((p, last) :: es), vcmdqOf ps q⟩
        (windowWords ps q ((p, last) :: es)) (windowRest ps q ((p, last) :: es)) :=
      .cmdb ⟨hin, hcnts, htail⟩ hps
    rw [hwords, hheader] at hdoing ⊢
    exact .of_write_only hout (doDeq_aiwOf hcnts) hdoing (doing_afterIr hin hcnts htail hps)

theorem advances_imm1b (hes : Window ((p, last) :: es)) (hps : ∀ p ∈ ps, p.Ok)
    (himm : p.imm1 = some w) :
    Advances ⟨.imm1b, false, a, aiwOf ((p, last) :: es), vcmdqOf ps q⟩ i
      (w :: (p.imm2.toList ++ (p.cnts.map cntWord ++ behindWindow ps q last es)))
      (windowRest ps q ((p, last) :: es)) := by
  obtain ⟨hin, hcnts, htail⟩ := hes
  obtain ⟨hcnt, -, himm1, himm2, -, -⟩ := hin.row
  have hflag : p.row.deqIrimm1b = true := by rw [himm1, ← hin.ok.imm1, himm]; rfl
  have hout := outImm1b_cons (w := w) (l := es.flatMap (·.1.imm1.toList))
    (s := ⟨.imm1b, false, a, aiwOf ((p, last) :: es), vcmdqOf ps q⟩) (i := i) (r := p.row)
    rfl (by simp [aiwOf, himm]) rfl hflag hcnt
  rw [himm2] at hout
  exact .of_write_only hout (doDeq_aiwOf hcnts) (.imm1b ⟨hin, hcnts, htail⟩ hps himm)
    (doing_afterImm1b hin hcnts htail hps)

theorem advances_imm2b (hes : Window ((p, last) :: es)) (hps : ∀ p ∈ ps, p.Ok)
    (himm : p.imm2 = some w) :
    Advances ⟨.imm2b, false, a, aiwOf ((p, last) :: es), vcmdqOf ps q⟩ i
      (w :: (p.cnts.map cntWord ++ behindWindow ps q last es))
      (windowRest ps q ((p, last) :: es)) := by
  obtain ⟨hin, hcnts, htail⟩ := hes
  obtain ⟨hcnt, -, -, himm2, -, -⟩ := hin.row
  have hflag : p.row.deqIrimm2b = true := by rw [himm2, ← hin.ok.imm2, himm]; rfl
  have hout := outImm2b_cons (w := w) (l := es.flatMap (·.1.imm2.toList))
    (s := ⟨.imm2b, false, a, aiwOf ((p, last) :: es), vcmdqOf ps q⟩) (i := i) (r := p.row)
    rfl (by simp [aiwOf, himm]) rfl hflag hcnt
  exact .of_write_only hout (doDeq_aiwOf hcnts) (.imm2b ⟨hin, hcnts, htail⟩ hps himm)
    (.cntb hin htail hps)

theorem deq_imms (hok : p.Ok) (f g : List Word) :
    deq p.row.deqVimm1q (p.imm1.toList ++ f) = f ∧
      deq p.row.deqVimm2q (p.imm2.toList ++ g) = g := by
  constructor
  · rw [← hok.imm1]
    cases p.imm1 <;> rfl
  · rw [← hok.imm2]
    cases p.imm2 <;> rfl

theorem next_aiwOf_done (hin : InWindow (p, true) es) (hcs : p.cnts = []) (st : EvacState)
    (sel : Bool) (stale : VCmd) :
    (aiwOf ((p, true) :: es)).next (.init st sel a) stale = aiwOf es := by
  obtain ⟨-, -, -, -, haiw1, haiw2⟩ := hin.row
  obtain ⟨hdrop1, hdrop2⟩ := deq_imms hin.ok (es.flatMap (·.1.imm1.toList))
    (es.flatMap (·.1.imm2.toList))
  simp [aiwOf, doDeq, hcs, haiw1, haiw2, hdrop1, hdrop2]
  simp [deq]

theorem advances_cntb (hin : InWindow (p, last) es) (htail : Window es) (hps : ∀ p ∈ ps, p.Ok) :
    Advances ⟨.cntb, false, a, aiwOf ((p, last) :: es), vcmdqOf ps q⟩ i
      (p.cnts.map cntWord ++ behindWindow ps q last es) (windowRest ps q ((p, last) :: es)) := by
  obtain ⟨hcnt, hvcnt, himm1, himm2, -, -⟩ := hin.row
  cases hcs : p.cnts with
  | nil =>
    cases last with
    | true =>
      -- The window drops the command by itself.
      have hout := outCntb_last (i := i)
        (s := ⟨.cntb, false, a, aiwOf ((p, true) :: es), vcmdqOf ps q⟩)
        (l := es.map fun e => (e.1.cnts.length, e.2)) rfl (by simp [aiwOf, hcs])
      have hnext : EvacSys.next ⟨.cntb, false, a, aiwOf ((p, true) :: es), vcmdqOf ps q⟩ i
          = ⟨.cmdb, false, a, aiwOf es, vcmdqOf ps q⟩ := by
        have haiw := next_aiwOf_done (a := a) hin hcs .cmdb false i.stale
        rw [next_of_out (i := i) hout, ← haiw]
        rfl
      refine .of_quiet (congrArg EvacOut.vsdqBits hout) ?_ ?_
      · rw [hnext]
        exact .cmdb htail hps
      · rw [hnext]
        exact Nat.lt_succ_self _
    | false =>
      have hnil := hin.newest rfl
      subst hnil
      have hout := outCntb_open (i := i) (r := p.row)
        (s := ⟨.cntb, false, a, aiwOf [(p, false)], vcmdqOf ps q⟩) (l := []) rfl
        (by simp [aiwOf, hcs]) rfl
      have hnext : EvacSys.next ⟨.cntb, false, a, aiwOf [(p, false)], vcmdqOf ps q⟩ i
          = ⟨.preVcmdq, false, a, aiwOf [], vcmdqOf ps q⟩ := by
        rw [next_of_out (i := i) hout]
        simp [aiwOf, vcmdqOf, doDeq, hcs, himm1, himm2]
        simpa [deq] using deq_imms hin.ok [] []
      refine .of_quiet (congrArg EvacOut.vsdqBits hout) ?_ ?_
      · rw [hnext]
        exact .preVcmdq hps
      · rw [hnext]
        exact Nat.lt_succ_self _
  | cons c cs =>
    have hout := outCntb_pos (i := i) (r := p.row) (n := cs.length) (b := last)
      (s := ⟨.cntb, false, a, aiwOf ((p, last) :: es), vcmdqOf ps q⟩)
      (l := es.map fun e => (e.1.cnts.length, e.2)) (c := c) (t := cs ++ es.flatMap (·.1.cnts))
      rfl (by simp [aiwOf, hcs]) (by simp [aiwOf, hcs]) rfl hcnt
    have hdeq : (aiwOf ((p, last) :: es)).doDeq = false := doDeq_aiwOf fun _ => by simp [hcs]
    have hnext := next_of_out (i := i) hout
    have hdoing : Doing ⟨.cntb, false, a, aiwOf ((p, last) :: es), vcmdqOf ps q⟩
        (cntWord c :: (cs.map cntWord ++ behindWindow ps q last es))
        (windowRest ps q ((p, last) :: es)) := by
      have h := Doing.cntb (a := a) (q := q) hin htail hps
      rwa [hcs] at h
    refine .of_write (congrArg EvacOut.vsdqBits hout) hdoing (fun hi => ?_) fun hi => ?_
    · have hrest : InWindow ({ p with cnts := cs }, last) es :=
        ⟨⟨hin.ok.known, hin.ok.imm1, hin.ok.imm2, fun h => by cases hvcnt.symm.trans h⟩,
          hin.known, hin.newest⟩
      have h := Doing.cntb (a := a + 8) (q := q) hrest htail hps
      have hqueues : (aiwOf ((p, last) :: es)).next
          { EvacSys.write ⟨.cntb, false, a, aiwOf ((p, last) :: es), vcmdqOf ps q⟩ i (cntWord c)
              .cntb with
            cntbReady := i.go
            updateNumcnt := i.go } i.stale
          = aiwOf (({ p with cnts := cs }, last) :: es) := by
        simp [hdeq, deq, hi]
        simp [aiwOf, hcs, decHead]
      rw [hnext, hqueues]
      simp only [EvacSys.write, EvacSys.hold, EvacOut.init, hi, VCMDQueues.next, deq, if_true,
        Bool.false_eq_true, if_false]
      exact h
    · rw [hnext]
      simp [hdeq, deq, hi]

theorem advances_preVcmdq (hps : ∀ p ∈ ps, p.Ok) :
    Advances ⟨.preVcmdq, false, a, aiwOf [], vcmdqOf ps q⟩ i
      ((throughMark q).map cntWord ++ image (shareOut ps (afterMark q)))
      (leftOver ps (afterMark q)) := by
  cases q with
  | nil =>
    have hnext : EvacSys.next ⟨.preVcmdq, false, a, aiwOf [], vcmdqOf ps []⟩ i
        = ⟨.vcmdq, true, a, aiwOf [], vcmdqOf ps []⟩ := by
      cases hi : i.go <;>
        simp [EvacSys.next, EvacSys.out, outPreVcmdq, aiwOf, vcmdqOf, deq, doDeq, hi]
    refine .of_quiet rfl ?_ ?_
    · rw [hnext]
      exact .vcmdq hps
    · rw [hnext]
      exact Nat.lt_succ_self _
  | cons e q =>
    obtain ⟨c, last⟩ := e
    have hnext : EvacSys.next ⟨.preVcmdq, false, a, aiwOf [], vcmdqOf ps ((c, last) :: q)⟩ i
        = if i.go then ⟨if last then .vcmdq else .preVcmdq, last, a + 8, aiwOf [], vcmdqOf ps q⟩
          else ⟨.preVcmdq, false, a, aiwOf [], vcmdqOf ps ((c, last) :: q)⟩ := by
      cases hi : i.go <;> cases last <;>
        simp [EvacSys.next, EvacSys.out, outPreVcmdq, aiwOf, vcmdqOf, deq, doDeq, hi]
    have hwords : (throughMark ((c, last) :: q)).map cntWord
        ++ image (shareOut ps (afterMark ((c, last) :: q)))
        = cntWord c :: if last then image (shareOut ps q)
          else (throughMark q).map cntWord ++ image (shareOut ps (afterMark q)) := by
      cases last <;> simp [throughMark, afterMark]
    have hdoing := Doing.preVcmdq (a := a) (q := (c, last) :: q) hps
    rw [hwords] at hdoing ⊢
    refine .of_write rfl hdoing (fun hi => ?_) fun hi => ?_
    · rw [hnext, if_pos hi]
      cases last
      · exact .preVcmdq hps
      · exact .vcmdq hps
    · rw [hnext, hi]
      rfl

/-- The state behind the last word in front of the counts, for a command of the command queues. The
command is given up if there is no count for it. -/
theorem doing_counts (hps : ∀ p' ∈ p :: ps, p'.Ok) :
    Doing ⟨afterV false false (p.row.deqVcntq && !q.isEmpty), true, a, aiwOf [],
        { vcmdqOf ps q with
          cmd := deq (!(p.row.deqVcntq && !q.isEmpty)) (vcmdqOf (p :: ps) q).cmd }⟩
      (behindQueued ps q p) (leftOver (p :: ps) q) := by
  have hnone : p.row.deqVcntq = false ∨ q = [] → Doing ⟨.vcmdq, true, a, aiwOf [], vcmdqOf ps q⟩
      (behindQueued ps q p) (leftOver (p :: ps) q) := by
    intro h
    have htaken : p.taken q = [] ∧ p.left q = q := by
      rw [SavedCmd.taken, SavedCmd.left]
      rcases h with h | rfl
      · simp [h]
      · simp
    rw [behindQueued, leftOver, htaken.1, htaken.2]
    exact .vcmdq fun p' hp' => hps p' (List.mem_cons_of_mem _ hp')
  by_cases hcnt : p.row.deqVcntq = true
  · cases q with
    | nil => simpa [hcnt, afterV, deq, vcmdqOf] using hnone (.inr rfl)
    | cons e q => simpa [hcnt, afterV, deq, vcmdqOf] using .vcntq hps hcnt
  · have hcnt' : p.row.deqVcntq = false := by simpa using hcnt
    simpa [hcnt', afterV, deq, vcmdqOf] using hnone (.inl hcnt')

theorem doing_afterVimm1 (hps : ∀ p' ∈ p :: ps, p'.Ok) :
    Doing ⟨afterV false p.row.deqVimm2q (p.row.deqVcntq && !q.isEmpty), true, a, aiwOf [],
        { vcmdqOf (p :: ps) q with
          imm1 := (vcmdqOf ps q).imm1
          cmd := deq (!p.row.deqVimm2q && !(p.row.deqVcntq && !q.isEmpty))
            (vcmdqOf (p :: ps) q).cmd }⟩
      (p.imm2.toList ++ behindQueued ps q p) (leftOver (p :: ps) q) := by
  rw [← (hps p List.mem_cons_self).imm2]
  cases himm : p.imm2 with
  | none =>
    have h := doing_counts (a := a) (q := q) hps
    simpa [vcmdqOf, himm] using h
  | some w =>
    have h := Doing.vimm2q (a := a) (q := q) hps himm
    simpa [vcmdqOf, himm, afterV, deq] using h

/-- After a word of the command queues, with what has been taken of their immediates. -/
theorem doing_afterV (hps : ∀ p' ∈ p :: ps, p'.Ok) :
    Doing ⟨afterV p.row.deqVimm1q p.row.deqVimm2q (p.row.deqVcntq && !q.isEmpty), true,
        a, aiwOf [],
        { vcmdqOf (p :: ps) q with
          cmd := deq (!p.row.deqVimm1q && !p.row.deqVimm2q && !(p.row.deqVcntq && !q.isEmpty))
            (vcmdqOf (p :: ps) q).cmd }⟩
      (p.imm1.toList ++ (p.imm2.toList ++ behindQueued ps q p)) (leftOver (p :: ps) q) := by
  rw [← (hps p List.mem_cons_self).imm1]
  cases himm : p.imm1 with
  | none => simpa [vcmdqOf, himm] using doing_afterVimm1 (a := a) (q := q) hps
  | some w =>
    have h := Doing.vimm1q (a := a) (q := q) hps himm
    simpa [vcmdqOf, himm, afterV, deq] using h

theorem advances_vcmdq (hps : ∀ p ∈ ps, p.Ok) :
    Advances ⟨.vcmdq, true, a, aiwOf [], vcmdqOf ps q⟩ i (image (shareOut ps q))
      (leftOver ps q) := by
  cases ps with
  | nil =>
    have hnext : EvacSys.next ⟨.vcmdq, true, a, aiwOf [], vcmdqOf [] q⟩ i
        = if i.go then ⟨.done, true, a + 8, aiwOf [], vcmdqOf [] q⟩
          else ⟨.vcmdq, true, a, aiwOf [], vcmdqOf [] q⟩ := by
      cases hi : i.go <;>
        simp [EvacSys.next, EvacSys.out, outVcmdq, aiwOf, vcmdqOf, deq, doDeq, hi]
    refine .of_write rfl (.vcmdq hps) (fun hi => ?_) fun hi => ?_
    · rw [hnext, if_pos hi]
      exact .done
    · rw [hnext, hi]
      rfl
  | cons p ps =>
    have hok := hps p List.mem_cons_self
    have hout := outVcmdq_cons (i := i) (r := p.row) (c := p.cmd)
      (s := ⟨.vcmdq, true, a, aiwOf [], vcmdqOf (p :: ps) q⟩) rfl rfl rfl hok.known
    have hwords : image (shareOut (p :: ps) q)
        = p.header :: (p.imm1.toList ++ (p.imm2.toList ++ behindQueued ps q p)) := by
      simp [shareOut, image, SavedCmd.words, SavedCmd.front, SavedCmd.header, SavedCmd.row,
        behindQueued]
    have hdoing := Doing.vcmdq (a := a) (q := q) hps
    rw [hwords] at hdoing ⊢
    have hnext := next_of_out hout
    refine .of_write (congrArg EvacOut.vsdqBits hout) hdoing (fun hi => ?_) fun hi => ?_
    · have h := doing_afterV (a := a + 8) (q := q) hps
      rw [hnext]
      simpa [doDeq_nil, deq, hi, vcmdqOf, aiwOf] using h
    · rw [hnext]
      simp [doDeq_nil, deq, hi]

theorem advances_vimm1q (hps : ∀ p' ∈ p :: ps, p'.Ok) (himm : p.imm1 = some w) :
    Advances ⟨.vimm1q, true, a, aiwOf [], vcmdqOf (p :: ps) q⟩ i
      (w :: (p.imm2.toList ++ behindQueued ps q p)) (leftOver (p :: ps) q) := by
  have hok := hps p List.mem_cons_self
  have hflag : p.row.deqVimm1q = true := by rw [← hok.imm1, himm]; rfl
  have hout := outVimm1q_cons (i := i) (r := p.row) (w := w)
    (s := ⟨.vimm1q, true, a, aiwOf [], vcmdqOf (p :: ps) q⟩)
    (l := ps.flatMap (·.imm1.toList)) rfl (by simp [vcmdqOf, himm]) rfl hflag
  have hnext := next_of_out hout
  refine .of_write (congrArg EvacOut.vsdqBits hout) (.vimm1q hps himm) (fun hi => ?_) fun hi => ?_
  · have h := doing_afterVimm1 (a := a + 8) (q := q) hps
    rw [hnext]
    simpa [doDeq_nil, deq, hi, vcmdqOf, aiwOf, himm] using h
  · rw [hnext]
    simp [doDeq_nil, deq, hi]

theorem advances_vimm2q (hps : ∀ p' ∈ p :: ps, p'.Ok) (himm : p.imm2 = some w) :
    Advances ⟨.vimm2q, true, a, aiwOf [],
        { vcmdqOf (p :: ps) q with imm1 := (vcmdqOf ps q).imm1 }⟩ i
      (w :: behindQueued ps q p) (leftOver (p :: ps) q) := by
  have hok := hps p List.mem_cons_self
  have hflag : p.row.deqVimm2q = true := by rw [← hok.imm2, himm]; rfl
  have hout := outVimm2q_cons (i := i) (r := p.row) (w := w)
    (s := ⟨.vimm2q, true, a, aiwOf [],
      { vcmdqOf (p :: ps) q with imm1 := (vcmdqOf ps q).imm1 }⟩)
    (l := ps.flatMap (·.imm2.toList)) rfl (by simp [vcmdqOf, himm]) rfl hflag
  have hnext := next_of_out hout
  refine .of_write (congrArg EvacOut.vsdqBits hout) (.vimm2q hps himm) (fun hi => ?_) fun hi => ?_
  · have h := doing_counts (a := a + 8) (q := q) hps
    rw [hnext]
    simpa [doDeq_nil, deq, hi, vcmdqOf, aiwOf, himm] using h
  · rw [hnext]
    simp [doDeq_nil, deq, hi]

/-- A block takes one count after the other, and any other command one. -/
theorem advances_vcntq (hps : ∀ p' ∈ p :: ps, p'.Ok) (hcnt : p.row.deqVcntq = true) :
    Advances ⟨.vcntq, true, a, aiwOf [],
        { vcmdqOf ps q with cmd := (vcmdqOf (p :: ps) q).cmd }⟩ i
      (behindQueued ps q p) (leftOver (p :: ps) q) := by
  have hrest : ∀ p' ∈ ps, p'.Ok := fun p' hp' => hps p' (List.mem_cons_of_mem _ hp')
  cases q with
  | nil =>
    have hnext : EvacSys.next ⟨.vcntq, true, a, aiwOf [],
        { vcmdqOf ps [] with cmd := (vcmdqOf (p :: ps) []).cmd }⟩ i
        = ⟨.vcmdq, true, a, aiwOf [], vcmdqOf ps []⟩ := by
      simp [EvacSys.next, EvacSys.out, outVcntq, aiwOf, vcmdqOf, deq, doDeq]
    have hwords : behindQueued ps [] p = image (shareOut ps [])
        ∧ leftOver (p :: ps) [] = leftOver ps [] := by
      simp [behindQueued, leftOver, SavedCmd.taken, SavedCmd.left]
    rw [hwords.1, hwords.2]
    refine .of_quiet rfl ?_ ?_
    · rw [hnext]
      exact .vcmdq hrest
    · rw [hnext]
      exact Nat.lt_succ_self _
  | cons e q =>
    obtain ⟨c, last⟩ := e
    have hout := outVcntq_cons (i := i) (r := p.row) (c := c) (b := last) (l := q)
      (s := ⟨.vcntq, true, a, aiwOf [],
        { vcmdqOf ps ((c, last) :: q) with cmd := (vcmdqOf (p :: ps) ((c, last) :: q)).cmd }⟩)
      rfl rfl rfl hcnt
    have hnext := next_of_out hout
    have hwords : behindQueued ps ((c, last) :: q) p = cntWord c ::
        if p.row.vf then behindQueued ps q p else image (shareOut ps q) := by
      cases hvf : p.row.vf <;> simp [behindQueued, SavedCmd.taken, SavedCmd.left, hcnt, hvf]
    have hleft : leftOver (p :: ps) ((c, last) :: q)
        = if p.row.vf then leftOver (p :: ps) q else leftOver ps q := by
      cases hvf : p.row.vf <;> simp [leftOver, SavedCmd.left, hcnt, hvf]
    have hdoing := Doing.vcntq (a := a) (q := (c, last) :: q) hps hcnt
    rw [hwords] at hdoing ⊢
    refine .of_write (congrArg EvacOut.vsdqBits hout) hdoing (fun hi => ?_) fun hi => ?_
    · rw [hnext, hleft]
      cases hvf : p.row.vf
      · have h := Doing.vcmdq (a := a + 8) (q := q) hrest
        simpa [doDeq_nil, deq, hi, vcmdqOf, aiwOf] using h
      · have h := Doing.vcntq (a := a + 8) (q := q) hps hcnt
        simpa [doDeq_nil, deq, hi, vcmdqOf, aiwOf] using h
    · rw [hnext]
      simp [doDeq_nil, deq, hi]

/-- **The step lemma.** -/
theorem Doing.advances (h : Doing s todo left) (hs : s.state ≠ .done) : Advances s i todo left := by
  cases h with
  | cmdb hes hps => exact advances_cmdb hes hps
  | imm1b hes hps himm => exact advances_imm1b hes hps himm
  | imm2b hes hps himm => exact advances_imm2b hes hps himm
  | cntb hin htail hps => exact advances_cntb hin htail hps
  | preVcmdq hps => exact advances_preVcmdq hps
  | vcmdq hps => exact advances_vcmdq hps
  | vimm1q hps himm => exact advances_vimm1q hps himm
  | vimm2q hps himm => exact advances_vimm2q hps himm
  | vcntq hps hcnt => exact advances_vcntq hps hcnt
  | done => exact absurd rfl hs

end Steps

end Hwacha

end RiscvSoc
