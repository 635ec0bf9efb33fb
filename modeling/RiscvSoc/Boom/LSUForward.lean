import RiscvSoc.Boom.LSU

/-!
# Squashed loads and store-to-load forwarding

A load that hits a store in the queue is answered two cycles after it was launched. In each of the
three cycles a branch older than the load may be resolved the wrong way, and then the load must not
be answered. A history variable follows the launched loads through the two stages: which branches
they still wait for, and whether one of them went wrong.

## Where a squashed load gets through

`r_forward_std_val` is the valid bit of the stage that `r_mem_uop` will name, so it is set together
with it; but the kill that guards the assignment looks at what `r_mem_uop` holds already, which is
the load launched a cycle earlier. A load woken up in the cycle of the misprediction is caught only
if that earlier load waits for the branch too; a load that is already in `r_mem_uop` is not caught
at all, and its mask loses the branch on the way to `r_wb_uop`. A load that comes from the address
unit is stopped there, so it is never launched in the cycle of the misprediction.
-/

namespace RiscvSoc

variable {c : BOOMConf}

/-! ### The history -/

/-- A load on its way to be answered. -/
structure Launch (c : BOOMConf) where
  uop : MicroOp c
  /-- The branches before it that are not resolved yet. -/
  brMask : BrMask c
  /-- A branch before it was mispredicted. -/
  squashed : Bool

/-- What a resolution does to a load on its way. -/
def Launch.resolve (l : Launch c) (brinfo : Option (BrResolutionInfo c)) : Launch c :=
  { l with
    brMask := getNewBrMask brinfo l.brMask
    squashed := l.squashed || isKilledByBranch brinfo l.brMask }

/-- The loads launched one and two cycles ago. -/
structure ForwardTrack (c : BOOMConf) where
  access : Option (Launch c)
  wb : Option (Launch c)

namespace LSU

variable {s : LSU c} {i : LSUInput c} {g : ForwardTrack c}

/-- The load launched in this cycle. -/
def launch (s : LSU c) (i : LSUInput c) : Option (Launch c) :=
  if s.fireLoad i then some (Launch.resolve ⟨s.lUop i, (s.lUop i).brMask, false⟩ i.brinfo) else none

/-- The history after a cycle. -/
def nextTrack (s : LSU c) (i : LSUInput c) (g : ForwardTrack c) : ForwardTrack c :=
  ⟨s.launch i, g.access.map (·.resolve i.brinfo)⟩

/-- The unit and its history. -/
def forwardMachine (c : BOOMConf) : Machine (LSU c × ForwardTrack c) (LSUInput c) :=
  (machine c).observe ⟨none, none⟩ nextTrack

/-- **No squashed load is answered.** If a branch before the load launched two cycles ago was
mispredicted then, a cycle later or now, the unit does not answer. -/
def SquashedSilent (s : LSU c × ForwardTrack c) (i : LSUInput c) : Prop :=
  ∀ l, s.2.wb = some l → (l.resolve i.brinfo).squashed = true → s.1.forwardVal i = false

/-- A misprediction hits no load that is launched towards the store queue in the same cycle,
unless it hits the load launched before it too; and it hits no load launched towards the store
queue a cycle ago. -/
def ForwardKillOk (s : LSU c) (i : LSUInput c) : Prop :=
  (isKilledByBranch i.brinfo (s.lUop i).brMask = true → s.forwards i = true →
    isKilledByBranch i.brinfo s.rMemUop.brMask = true) ∧
  (isKilledByBranch i.brinfo s.rMemUop.brMask = true → s.rForwardStdVal = false)

/-! ### The invariant -/

/-- The two stages hold the launched loads, and a squashed one is not valid. -/
structure TrackInv (s : LSU c) (g : ForwardTrack c) : Prop where
  accessMask : ∀ l, g.access = some l → ∀ t, l.brMask t = true → s.rMemUop.brMask t = true
  accessVal : ∀ l, g.access = some l → l.squashed = true → s.rForwardStdVal = false
  wbMask : ∀ l, g.wb = some l → ∀ t, l.brMask t = true → s.rWbUop.brMask t = true
  wbVal : ∀ l, g.wb = some l → l.squashed = true → s.rWbForwardStdVal = false

theorem of_launch {l : Launch c} (h : s.launch i = some l) :
    l.brMask = getNewBrMask i.brinfo (s.lUop i).brMask ∧
      l.squashed = isKilledByBranch i.brinfo (s.lUop i).brMask := by
  rw [launch] at h
  split at h
  · cases h
    exact ⟨rfl, Bool.false_or _⟩
  · cases h

theorem TrackInv.next (h : TrackInv s g) (hok : ForwardKillOk s i) :
    TrackInv (s.next i) (s.nextTrack i g) where
  accessMask l hl t ht := by
    rw [(of_launch hl).1] at ht
    exact getNewBrMask_le t ht
  accessVal l hl hsquashed := by
    rw [(of_launch hl).2] at hsquashed
    show (if isKilledByBranch i.brinfo s.rMemUop.brMask then false else s.forwards i) = false
    split
    · rfl
    · rename_i hmem
      by_contra hforwards
      exact hmem (hok.1 hsquashed (Bool.eq_true_of_not_eq_false hforwards))
  wbMask l hl t ht := by
    obtain ⟨l₀, hl₀, rfl⟩ := Option.map_eq_some_iff.mp hl
    exact getNewBrMask_mono (h.accessMask l₀ hl₀) t ht
  wbVal l hl hsquashed := by
    obtain ⟨l₀, hl₀, rfl⟩ := Option.map_eq_some_iff.mp hl
    rcases Bool.or_eq_true_iff.mp hsquashed with hbefore | hnow
    · exact h.accessVal l₀ hl₀ hbefore
    · exact hok.2 (isKilledByBranch_mono (h.accessMask l₀ hl₀) hnow)

theorem TrackInv.squashedSilent (h : TrackInv s g) : SquashedSilent (s, g) i := by
  intro l hl hsquashed
  rcases Bool.or_eq_true_iff.mp hsquashed with hbefore | hnow
  · simp [forwardVal, h.wbVal l hl hbefore]
  · have hkill : s.wbForwardingKill i = true := isKilledByBranch_mono (h.wbMask l hl) hnow
    simp [forwardVal, hkill]

/-- **A squashed load is never answered by the store queue**, in every run in which no
misprediction slips past the guard. -/
theorem forward_silent_of_squashed (c : BOOMConf) :
    ∀ s, ((forwardMachine c).restrict fun s i => ForwardKillOk s.1 i).Reachable s →
      ∀ i, SquashedSilent s i := by
  have hinv : ∀ s, ((forwardMachine c).restrict fun s i => ForwardKillOk s.1 i).Reachable s →
      TrackInv s.1 s.2 := by
    refine Machine.invariant ?_ ?_
    · rintro ⟨s, g⟩ ⟨_, rfl⟩
      constructor <;> rintro l ⟨⟩
    · rintro ⟨s, g⟩ i ⟨s', g'⟩ _ h ⟨hok, rfl, rfl⟩
      exact h.next hok
  exact fun s hs i => (hinv s hs).squashedSilent

theorem forwardMachine_reset : (forwardMachine c).Reachable (reset c, ⟨none, none⟩) :=
  .init ⟨isReset_reset c, rfl⟩

/-- A store, and a load behind branch `0` that reads the same word. It is launched in the last
cycle. -/
def launchLoad : List (LSUInput .chip) :=
  let store : MicroOp .chip := ⟨.sta, false, .d, fun _ => false, 0, 0, 0, 0⟩
  let load : MicroOp .chip := ⟨.ld, false, .d, fun t => decide (t.val = 0), 0, 1, 7, 2⟩
  [{ LSUInput.quiet with dec := [⟨false, true, store⟩, ⟨true, false, load⟩] },
    { LSUInput.quiet with exeReq := some ⟨store, 64⟩ },
    { LSUInput.quiet with exeReq := some ⟨{ store with uopc := .std }, 5⟩ },
    { LSUInput.quiet with exeReq := some ⟨load, 64⟩ }]

/-- Branch `0` turns out to be mispredicted. -/
def mispredicted : LSUInput .chip :=
  { LSUInput.quiet with
    brinfo := some ⟨true, fun t => decide (t.val = 0), ⟨0, by decide⟩, fun _ => false, 1, 0, 1⟩ }

instance : Decidable (ForwardKillOk s i) := inferInstanceAs (Decidable (_ ∧ _))

def afterLaunch : LSU .chip × ForwardTrack .chip :=
  Machine.cycles next nextTrack (launchLoad ++ [.quiet]) (reset .chip, ⟨none, none⟩)

/-- A misprediction two cycles after the launch stops the answer. -/
theorem forward_silent_of_squashed_killed :
    (afterLaunch.2.wb.map fun l => (l.resolve mispredicted.brinfo).squashed) = some true ∧
      afterLaunch.1.forwardVal .quiet = true ∧ afterLaunch.1.forwardVal mispredicted = false := by
  have hstart : ((forwardMachine .chip).restrict fun s i => ForwardKillOk s.1 i).Reachable
      (reset .chip, ⟨none, none⟩) := .init ⟨isReset_reset .chip, rfl⟩
  have hreach := Machine.reachable_restrict_cycles hstart (launchLoad ++ [.quiet])
    (by decide +kernel)
  have hkilled : (afterLaunch.2.wb.map fun l => (l.resolve mispredicted.brinfo).squashed) =
      some true := by decide +kernel
  obtain ⟨l, hl, hsquashed⟩ := Option.map_eq_some_iff.mp hkilled
  exact ⟨hkilled, by decide +kernel,
    forward_silent_of_squashed .chip _ hreach mispredicted l hl hsquashed⟩

/-- The branch is resolved in the cycle after the launch. -/
def mispredictAfterLaunch : List (LSUInput .chip) := launchLoad ++ [mispredicted]

/-- The load is answered all the same. -/
theorem not_squashedSilent :
    ¬∀ s, (forwardMachine .chip).Reachable s → ∀ i, SquashedSilent s i := by
  intro h
  have hrun : ∃ s, (forwardMachine .chip).Reachable s ∧
      (s.2.wb.map (·.squashed)) = some true ∧ s.1.forwardVal .quiet = true := by
    refine ⟨Machine.cycles next nextTrack mispredictAfterLaunch (reset .chip, ⟨none, none⟩),
      Machine.reachable_cycles forwardMachine_reset _, by decide +kernel, by decide +kernel⟩
  obtain ⟨s, hreach, hwb, hval⟩ := hrun
  obtain ⟨l, hl, hsquashed⟩ := Option.map_eq_some_iff.mp hwb
  have hsilent := h s hreach .quiet l hl (by rw [Launch.resolve, hsquashed]; rfl)
  rw [hval] at hsilent
  cases hsilent

end LSU

end RiscvSoc
