import RiscvSoc.Hwacha.Evac

/-!
# The image of an evacuation

What the words that `Evac` writes mean. A reader takes a header, then the immediates its flags
announce, and then counts as long as bit 32 of a word is down. A header has that bit up, and so has
the word of ones at the end.

The count queue of the other side does not say where the counts of one command end. `delivered` is
how they are shared out when a vector-fetch block takes all there are; `owned` is who they belong
to. The two are the same if no count is behind a block, nor behind a command that could take one and
has none (`CountsInOrder`).
-/

namespace RiscvSoc

namespace Hwacha

/-! ### Commands -/

/-- A command with what belongs to it. -/
structure SavedCmd where
  cmd : VCmd
  imm1 : Option Word
  imm2 : Option Word
  cnts : List VCnt
  deriving DecidableEq

namespace SavedCmd

variable (p : SavedCmd)

def row : EvacRow := EvacRow.find p.cmd.code

/-- A command of the command queues, with the immediates it takes. -/
structure Ok : Prop where
  known : p.row.deqVcmdq = true
  imm1 : p.imm1.isSome = p.row.deqVimm1q
  imm2 : p.imm2.isSome = p.row.deqVimm2q
  cnts : p.row.deqVcntq = false → p.cnts = []

instance : Decidable p.Ok :=
  decidable_of_iff (p.row.deqVcmdq = true ∧ p.imm1.isSome = p.row.deqVimm1q ∧
      p.imm2.isSome = p.row.deqVimm2q ∧ (p.row.deqVcntq = false → p.cnts = []))
    ⟨fun ⟨h₁, h₂, h₃, h₄⟩ => ⟨h₁, h₂, h₃, h₄⟩, fun h => ⟨h.known, h.imm1, h.imm2, h.cnts⟩⟩

def header : Word :=
  Hwacha.header p.row.isPrefetch p.row.deqVimm1q p.row.deqVimm2q p.row.deqVcntq p.cmd

/-- The header and the immediates. -/
def front : List Word := p.header :: (p.imm1.toList ++ p.imm2.toList)

def words : List Word := p.front ++ p.cnts.map cntWord

end SavedCmd

/-- The words of some commands. -/
def image (ps : List SavedCmd) : List Word := ps.flatMap SavedCmd.words ++ [terminator]

/-! ### The reader -/

/-- Bit 32 of a word. -/
def isHeader (w : Word) : Bool := w.getLsbD 32

/-- One word, if there has to be one. -/
def takeIf (flag : Bool) (ws : List Word) : Option Word × List Word :=
  if flag then (ws.head?, ws.tail) else (none, ws)

/-- Reads as many commands as there may be words. -/
def readWords : ℕ → List Word → Option (List SavedCmd)
  | 0, _ | _, [] => none
  | n + 1, w :: ws =>
    if w = terminator then if ws = [] then some [] else none
    else if isHeader w then
      let (imm1, ws) := takeIf (w.getLsbD 35) ws
      let (imm2, ws) := takeIf (w.getLsbD 34) ws
      let cnts := (ws.takeWhile fun v => !isHeader v).map (·.setWidth 12)
      (readWords n (ws.dropWhile fun v => !isHeader v)).map (⟨w.setWidth 18, imm1, imm2, cnts⟩ :: ·)
    else none

def readBack (ws : List Word) : Option (List SavedCmd) := readWords ws.length ws

section RoundTrip

variable (isPrefetch imm1 imm2 cnt : Bool) (cmd : VCmd)

theorem getLsbD_header {j : ℕ} (hj : 32 ≤ j) :
    (header isPrefetch imm1 imm2 cnt cmd).getLsbD j =
      (if j = 32 then true
      else if j = 33 then cnt
      else if j = 34 then imm2
      else if j = 35 then imm1
      else if j = 36 then isPrefetch
      else false) := by
  have happend : (header isPrefetch imm1 imm2 cnt cmd).getLsbD j =
      (0#27 ++ BitVec.ofBool isPrefetch ++ BitVec.ofBool imm1 ++ BitVec.ofBool imm2
        ++ BitVec.ofBool cnt ++ 1#1 ++ 0#14 ++ cmd :
          BitVec (27 + 1 + 1 + 1 + 1 + 1 + 14 + 18)).getLsbD j := rfl
  rw [happend]
  simp only [BitVec.getLsbD_append]
  obtain rfl | rfl | rfl | rfl | rfl | hhigh :
      j = 32 ∨ j = 33 ∨ j = 34 ∨ j = 35 ∨ j = 36 ∨ 37 ≤ j := by omega
  case inr.inr.inr.inr.inr =>
    rw [if_neg (by omega), if_neg (by omega), if_neg (by omega), if_neg (by omega),
      if_neg (by omega), if_neg (by omega), if_neg (by omega), BitVec.getLsbD_zero,
      if_neg (by omega), if_neg (by omega), if_neg (by omega), if_neg (by omega),
      if_neg (by omega)]
  all_goals simp

theorem isHeader_header : isHeader (header isPrefetch imm1 imm2 cnt cmd) = true :=
  getLsbD_header _ _ _ _ _ le_rfl

theorem header_ne_terminator : header isPrefetch imm1 imm2 cnt cmd ≠ terminator := by
  intro h
  have hbit := getLsbD_header isPrefetch imm1 imm2 cnt cmd (show 32 ≤ 63 by decide)
  rw [h] at hbit
  simp [terminator] at hbit

theorem setWidth_header : (header isPrefetch imm1 imm2 cnt cmd).setWidth 18 = cmd := by
  ext j hj
  rw [BitVec.getElem_setWidth, BitVec.getLsbD_eq_getElem (by omega), header, BitVec.getElem_append,
    dif_pos hj]

theorem isHeader_cntWord (c : VCnt) : isHeader (cntWord c) = false := by
  simp [isHeader, cntWord]

theorem setWidth_cntWord (c : VCnt) : (cntWord c).setWidth 12 = c := by
  simp [cntWord]

theorem takeIf_toList (imm : Option Word) (ws : List Word) :
    takeIf imm.isSome (imm.toList ++ ws) = (imm, ws) := by
  cases imm <;> rfl

theorem takeWhile_counts (cs : List VCnt) {ws : List Word} (h : ∀ w ∈ ws.head?, isHeader w = true) :
    ((cs.map cntWord ++ ws).takeWhile fun v => !isHeader v) = cs.map cntWord ∧
      ((cs.map cntWord ++ ws).dropWhile fun v => !isHeader v) = ws := by
  induction cs with
  | nil => cases ws <;> simp_all
  | cons c cs ih => simp [isHeader_cntWord, ih]

theorem isHeader_head_image (ps : List SavedCmd) :
    ∀ w ∈ (image ps).head?, isHeader w = true := by
  cases ps with
  | nil => simp [image, isHeader, terminator]
  | cons p ps => simp [image, SavedCmd.words, SavedCmd.front, SavedCmd.header, isHeader_header]

/-- **The round trip.** -/
theorem readBack_image {ps : List SavedCmd} (h : ∀ p ∈ ps, p.Ok) :
    readBack (image ps) = some ps := by
  have hread : ∀ n, ps.length < n → readWords n (image ps) = some ps := by
    induction ps with
    | nil =>
      intro n hn
      obtain ⟨n, rfl⟩ := Nat.exists_eq_succ_of_ne_zero (Nat.ne_zero_of_lt hn)
      simp [image, readWords]
    | cons p ps ih =>
      intro n hn
      obtain ⟨n, rfl⟩ := Nat.exists_eq_succ_of_ne_zero (Nat.ne_zero_of_lt hn)
      have hp := h p List.mem_cons_self
      have himage : image (p :: ps) = p.header :: (p.imm1.toList ++ (p.imm2.toList ++
          (p.cnts.map cntWord ++ image ps))) := by
        simp [image, SavedCmd.words, SavedCmd.front]
      have hmap : (p.cnts.map cntWord).map (·.setWidth 12) = p.cnts := by
        rw [List.map_map]
        exact (List.map_congr_left fun c _ => setWidth_cntWord c).trans (List.map_id _)
      obtain ⟨htake, hdrop⟩ := takeWhile_counts p.cnts (isHeader_head_image ps)
      have hne : p.header ≠ terminator := header_ne_terminator _ _ _ _ _
      have hhead : isHeader p.header = true := isHeader_header ..
      have h35 : p.header.getLsbD 35 = p.row.deqVimm1q := getLsbD_header _ _ _ _ _ (by decide)
      have h34 : p.header.getLsbD 34 = p.row.deqVimm2q := getLsbD_header _ _ _ _ _ (by decide)
      have hcmd : p.header.setWidth 18 = p.cmd := setWidth_header ..
      rw [himage, readWords, if_neg hne, if_pos hhead, h35, h34, hcmd]
      rw [← hp.imm1, takeIf_toList, ← hp.imm2]
      simp only [takeIf_toList, htake, hdrop, hmap]
      rw [ih (fun q hq => h q (List.mem_cons_of_mem _ hq)) n (by simpa using hn)]
      rfl
  refine hread _ ?_
  have hlen : ∀ ps : List SavedCmd, ps.length < (image ps).length := by
    intro ps
    induction ps with
    | nil => simp [image]
    | cons p ps ih =>
      have hpos : 0 < p.words.length := by simp [SavedCmd.words, SavedCmd.front]
      simp only [image, List.flatMap_cons, List.length_append, List.length_cons] at ih ⊢
      omega
  exact hlen ps

end RoundTrip

/-! ### Sharing out the counts -/

/-- The counts up to the first mark. -/
def throughMark : List (VCnt × Bool) → List VCnt
  | [] => []
  | (c, last) :: q => if last then [c] else c :: throughMark q

/-- Those behind it. -/
def afterMark : List (VCnt × Bool) → List (VCnt × Bool)
  | [] => []
  | (_, last) :: q => if last then q else afterMark q

namespace SavedCmd

variable (p : SavedCmd)

/-- What `Evac` writes for a command of the command queues. -/
def taken (q : List (VCnt × Bool)) : List VCnt :=
  if p.row.deqVcntq then if p.row.vf then q.map Prod.fst else (q.take 1).map Prod.fst else []

/-- What it leaves. -/
def left (q : List (VCnt × Bool)) : List (VCnt × Bool) :=
  if p.row.deqVcntq then if p.row.vf then [] else q.tail else q

end SavedCmd

def shareOut : List SavedCmd → List (VCnt × Bool) → List SavedCmd
  | [], _ => []
  | p :: ps, q => { p with cnts := p.taken q } :: shareOut ps (p.left q)

def leftOver : List SavedCmd → List (VCnt × Bool) → List (VCnt × Bool)
  | [], q => q
  | p :: ps, q => leftOver ps (p.left q)

/-- Some counts of one command, with the mark of the last of them. -/
def marks (final : Bool) : List VCnt → List (VCnt × Bool)
  | [] => []
  | [c] => [(c, final)]
  | c :: d :: cs => (c, false) :: marks final (d :: cs)

/-! ### Contents -/

/-- What is to be evacuated. -/
structure EvacContent where
  /-- The commands of the window that have been issued, oldest first. -/
  window : List SavedCmd
  /-- The vector-fetch block that is still being issued, with those of its counts that are in the
  queue of the other side. The flag is the mark of the last of these. It is down if a restore
  stopped before that count came. -/
  current : Option (SavedCmd × List VCnt × Bool)
  /-- The commands that have not been issued, with the mark of their last count. -/
  queued : List (SavedCmd × Bool)

/-- The counts of one command in the count queue. -/
def countsOf (e : SavedCmd × Bool) : List (VCnt × Bool) := marks e.2 e.1.cnts

namespace EvacContent

variable (c : EvacContent)

/-- The commands of the window, with their marks. -/
def aiw : List (SavedCmd × Bool) :=
  c.window.map (·, true) ++ (c.current.map fun e => (e.1, false)).toList

/-- The count queue. -/
def cnt : List (VCnt × Bool) :=
  c.current.elim [] (fun e => marks e.2.2 e.2.1) ++ c.queued.flatMap countsOf

/-- What issuing leaves behind. -/
structure Ok : Prop where
  aiw : ∀ e ∈ c.aiw, e.1.Ok ∧ e.1.row.deqIrcmdb = true
  queued : ∀ e ∈ c.queued, e.1.Ok ∧ (e.1.row.vf = false → e.1.cnts.length ≤ 1)

/-- The commands that are done, and wait for the window to drop them. -/
def live : List SavedCmd := c.window.filter fun p => !p.cnts.isEmpty

/-- The pending commands with their own counts. -/
def owned : List SavedCmd :=
  c.live ++ (c.current.map fun e => { e.1 with cnts := e.1.cnts ++ e.2.1 }).toList
    ++ c.queued.map Prod.fst

/-- The same with the counts that `Evac` writes for them. -/
def delivered : List SavedCmd :=
  match c.current with
  | none => c.live ++ shareOut (c.queued.map Prod.fst) c.cnt
  | some (p, _) =>
    c.live ++ { p with cnts := p.cnts ++ throughMark c.cnt } ::
      shareOut (c.queued.map Prod.fst) (afterMark c.cnt)

/-- What is left of the count queue. -/
def rest : List (VCnt × Bool) :=
  leftOver (c.queued.map Prod.fst) (if c.current.isSome then afterMark c.cnt else c.cnt)

/-- A block takes all counts there are, or all up to a mark if it is being issued, and a command
without one takes the next. -/
structure CountsInOrder : Prop where
  current : ∀ p cs final, c.current = some (p, cs, final) → cs = [] ∨ final = false →
    ∀ e ∈ c.queued, e.1.cnts = []
  queued : c.queued.Pairwise fun e f =>
    e.1.row.deqVcntq = true → e.1.row.vf = true ∨ e.1.cnts = [] → f.1.cnts = []

end EvacContent

section Share

variable {final : Bool}

theorem map_fst_marks (cs : List VCnt) : (marks final cs).map Prod.fst = cs := by
  induction cs with
  | nil => rfl
  | cons c cs ih =>
    cases cs with
    | nil => rfl
    | cons d cs => rw [marks, List.map_cons, ih]

theorem map_fst_countsOf (e : SavedCmd × Bool) : (countsOf e).map Prod.fst = e.1.cnts :=
  map_fst_marks _

variable {e : SavedCmd × Bool} {q : List (VCnt × Bool)}

theorem countsOf_eq_nil : countsOf e = [] ↔ e.1.cnts = [] := by
  rw [← map_fst_countsOf, List.map_eq_nil_iff]

theorem flatMap_countsOf_eq_nil {es : List (SavedCmd × Bool)} :
    es.flatMap countsOf = [] ↔ ∀ e ∈ es, e.1.cnts = [] := by
  simp only [List.flatMap_eq_nil_iff, countsOf_eq_nil]

theorem throughMark_marks {cs : List VCnt} (h : cs ≠ []) (q : List (VCnt × Bool)) :
    throughMark (marks true cs ++ q) = cs ∧ afterMark (marks true cs ++ q) = q := by
  induction cs with
  | nil => exact absurd rfl h
  | cons c cs ih =>
    cases cs with
    | nil => simp [marks, throughMark, afterMark]
    | cons d cs => simpa [marks, throughMark, afterMark] using ih (List.cons_ne_nil d cs)

theorem throughMark_open {cs : List VCnt} (h : cs = [] ∨ final = false) (q : List (VCnt × Bool)) :
    throughMark (marks final cs ++ q) = cs ++ throughMark q ∧
      afterMark (marks final cs ++ q) = afterMark q := by
  induction cs with
  | nil => simp [marks]
  | cons c cs ih =>
    obtain rfl : final = false := h.resolve_left (List.cons_ne_nil c cs)
    cases cs with
    | nil => simp [marks, throughMark, afterMark]
    | cons d cs => simpa [marks, throughMark, afterMark] using ih (.inr rfl)

theorem throughMark_eq_nil : throughMark q = [] ↔ q = [] := by
  cases q with
  | nil => simp [throughMark]
  | cons e q =>
    obtain ⟨c, last⟩ := e
    cases last <;> simp [throughMark]

/-- A command that shares its counts in order gets its own. -/
theorem taken_eq_iff (hok : e.1.Ok) (hone : e.1.row.vf = false → e.1.cnts.length ≤ 1) :
    e.1.taken (countsOf e ++ q) = e.1.cnts ↔
      (e.1.row.deqVcntq = true → e.1.row.vf = true ∨ e.1.cnts = [] → q = []) := by
  have hfst := map_fst_countsOf e
  rw [SavedCmd.taken]
  by_cases hcnt : e.1.row.deqVcntq = true
  · by_cases hvf : e.1.row.vf = true
    · simp [hcnt, hvf, hfst]
    · have hvf' : e.1.row.vf = false := by simpa using hvf
      have hlen := hone hvf'
      match hcs : e.1.cnts with
      | [] =>
        have hnil : countsOf e = [] := countsOf_eq_nil.mpr hcs
        cases q <;> simp [hcnt, hvf', hnil]
      | [d] => simp [hcnt, hvf', countsOf, marks, hcs]
      | _ :: _ :: _ =>
        rw [hcs] at hlen
        simp at hlen
  · have hcnt' : e.1.row.deqVcntq = false := by simpa using hcnt
    simp [hcnt', hok.cnts hcnt']

theorem left_eq (hok : e.1.Ok) (hone : e.1.row.vf = false → e.1.cnts.length ≤ 1)
    (htaken : e.1.taken (countsOf e ++ q) = e.1.cnts) : e.1.left (countsOf e ++ q) = q := by
  have hq := (taken_eq_iff hok hone).mp htaken
  rw [SavedCmd.left]
  by_cases hcnt : e.1.row.deqVcntq = true
  · by_cases hvf : e.1.row.vf = true
    · simp [hcnt, hvf, hq hcnt (.inl hvf)]
    · have hvf' : e.1.row.vf = false := by simpa using hvf
      have hlen := hone hvf'
      match hcs : e.1.cnts with
      | [] => simp [hcnt, hvf', hq hcnt (.inr hcs), countsOf_eq_nil.mpr hcs]
      | [d] => simp [hcnt, hvf', countsOf, marks, hcs]
      | _ :: _ :: _ =>
        rw [hcs] at hlen
        simp at hlen
  · have hcnt' : e.1.row.deqVcntq = false := by simpa using hcnt
    simp [hcnt', countsOf_eq_nil.mpr (hok.cnts hcnt')]

variable {es : List (SavedCmd × Bool)}

theorem shareOut_eq_iff
    (hok : ∀ e ∈ es, e.1.Ok ∧ (e.1.row.vf = false → e.1.cnts.length ≤ 1)) :
    shareOut (es.map Prod.fst) (es.flatMap countsOf) = es.map Prod.fst ↔
      es.Pairwise fun e f =>
        e.1.row.deqVcntq = true → e.1.row.vf = true ∨ e.1.cnts = [] → f.1.cnts = [] := by
  induction es with
  | nil => simp [shareOut]
  | cons e es ih =>
    obtain ⟨he, hone⟩ := hok e List.mem_cons_self
    have ih := ih fun f hf => hok f (List.mem_cons_of_mem _ hf)
    have hself : ∀ cs, ({ e.1 with cnts := cs } : SavedCmd) = e.1 ↔ cs = e.1.cnts := by
      intro cs
      constructor
      · intro h
        exact congrArg SavedCmd.cnts h
      · rintro rfl
        rfl
    have hfront := taken_eq_iff (q := es.flatMap countsOf) he hone
    rw [flatMap_countsOf_eq_nil] at hfront
    rw [List.map_cons, List.flatMap_cons, shareOut, List.cons.injEq, hself, List.pairwise_cons]
    constructor
    · rintro ⟨htaken, hrest⟩
      rw [left_eq he hone htaken] at hrest
      exact ⟨fun f hf hcnt hnone => hfront.mp htaken hcnt hnone f hf, ih.mp hrest⟩
    · rintro ⟨hhead, htail⟩
      have htaken := hfront.mpr fun hcnt hnone f hf => hhead f hf hcnt hnone
      rw [left_eq he hone htaken]
      exact ⟨htaken, ih.mpr htail⟩

theorem leftOver_eq_nil
    (hok : ∀ e ∈ es, e.1.Ok ∧ (e.1.row.vf = false → e.1.cnts.length ≤ 1))
    (hshare : shareOut (es.map Prod.fst) (es.flatMap countsOf) = es.map Prod.fst) :
    leftOver (es.map Prod.fst) (es.flatMap countsOf) = [] := by
  induction es with
  | nil => rfl
  | cons e es ih =>
    obtain ⟨he, hone⟩ := hok e List.mem_cons_self
    rw [List.map_cons, List.flatMap_cons, shareOut, List.cons.injEq] at hshare
    have htaken : e.1.taken (countsOf e ++ es.flatMap countsOf) = e.1.cnts :=
      congrArg SavedCmd.cnts hshare.1
    rw [left_eq he hone htaken] at hshare
    rw [List.map_cons, List.flatMap_cons, leftOver, left_eq he hone htaken]
    exact ih (fun f hf => hok f (List.mem_cons_of_mem _ hf)) hshare.2

end Share

namespace EvacContent

variable {c : EvacContent}

/-- What `Evac` takes for the block that is being issued. -/
theorem through_cnt {p : SavedCmd} {cs : List VCnt} {final : Bool}
    (hc : c.current = some (p, cs, final)) :
    (throughMark c.cnt = cs ↔ (cs = [] ∨ final = false → ∀ e ∈ c.queued, e.1.cnts = [])) ∧
      (throughMark c.cnt = cs → afterMark c.cnt = c.queued.flatMap countsOf) := by
  have hcnt : c.cnt = marks final cs ++ c.queued.flatMap countsOf := by simp [cnt, hc]
  rw [hcnt]
  by_cases hopen : cs = [] ∨ final = false
  · obtain ⟨hthrough, hafter⟩ := throughMark_open hopen (c.queued.flatMap countsOf)
    rw [hthrough, hafter, List.append_right_eq_self, throughMark_eq_nil, flatMap_countsOf_eq_nil]
    refine ⟨by simp [hopen], fun h => ?_⟩
    rw [flatMap_countsOf_eq_nil.mpr h, afterMark]
  · rw [not_or, Bool.not_eq_false] at hopen
    obtain ⟨hcs, rfl⟩ := hopen
    obtain ⟨hthrough, hafter⟩ := throughMark_marks hcs (c.queued.flatMap countsOf)
    exact ⟨⟨fun _ h => by simp [hcs] at h, fun _ => hthrough⟩, fun _ => hafter⟩

/-- **What `Evac` writes belongs where it is written** exactly when the counts are in order. -/
theorem delivered_eq_owned (hok : c.Ok) : c.delivered = c.owned ↔ c.CountsInOrder := by
  have hshare := shareOut_eq_iff hok.queued
  cases hc : c.current with
  | none =>
    have hcnt : c.cnt = c.queued.flatMap countsOf := by simp [cnt, hc]
    rw [delivered, owned, hc, hcnt]
    simp only [Option.map_none, Option.toList_none, List.append_nil, List.append_cancel_left_eq]
    rw [hshare]
    exact ⟨fun h => ⟨fun p cs final hp => (by cases hc.symm.trans hp), h⟩, fun h => h.queued⟩
  | some e =>
    obtain ⟨p, cs, final⟩ := e
    obtain ⟨hthrough, hafter⟩ := through_cnt hc
    have hself : ({ p with cnts := p.cnts ++ throughMark c.cnt } : SavedCmd)
        = { p with cnts := p.cnts ++ cs } ↔ throughMark c.cnt = cs := by
      simp
    rw [delivered, owned, hc]
    simp only [Option.map_some, Option.toList_some, List.append_assoc, List.cons_append,
      List.nil_append, List.append_cancel_left_eq, List.cons.injEq, hself]
    constructor
    · rintro ⟨htaken, hrest⟩
      rw [hafter htaken, hshare] at hrest
      refine ⟨fun p' cs' final' hp' => ?_, hrest⟩
      cases hc.symm.trans hp'
      exact hthrough.mp htaken
    · intro h
      have htaken := hthrough.mpr (h.current p cs final hc)
      rw [hafter htaken, hshare]
      exact ⟨htaken, h.queued⟩

theorem rest_eq_nil (hok : c.Ok) (h : c.CountsInOrder) : c.rest = [] := by
  have hshare := leftOver_eq_nil hok.queued ((shareOut_eq_iff hok.queued).mpr h.queued)
  cases hc : c.current with
  | none =>
    have hcnt : c.cnt = c.queued.flatMap countsOf := by simp [cnt, hc]
    rw [rest, hc, hcnt]
    exact hshare
  | some e =>
    obtain ⟨p, cs, final⟩ := e
    obtain ⟨hthrough, hafter⟩ := through_cnt hc
    have htaken := hthrough.mpr (h.current p cs final hc)
    rw [rest, hc, Option.isSome_some, if_pos rfl, hafter htaken]
    exact hshare

end EvacContent

end Hwacha

end RiscvSoc
