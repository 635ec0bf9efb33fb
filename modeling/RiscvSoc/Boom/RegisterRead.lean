import RiscvSoc.Boom.ExecutionUnit
import RiscvSoc.Lib.Forwarding

/-!
# The register file and the bypass network

`RegisterFile` from `boom/src/main/scala/regfile.scala` and the operand muxes of `RegisterRead` in
`registerread.scala`. A micro-op is issued and reads its operands in one cycle. A read port may see
what is being written, and the bypass network, asked first, what the ALUs compute and what they have
computed a cycle ago.

`P0` reads as zero and is never written.
-/

namespace RiscvSoc

open Forwarding

variable {c : BOOMConf}

/-! ### `RegisterFile` -/

namespace RegisterFile

variable (bypassing : Bool) (rf : PReg c → Word) (ws : List (PReg c × Word)) (a : PReg c)

/-- `io.read_ports(i).data`. `ws` are the write ports whose `wen` is up. -/
def read : Word :=
  let hits := ws.filter fun x => decide (x.1 ≠ 0) && decide (x.1 = a)
  if bypassing && !hits.isEmpty then (hits.map Prod.snd).foldl (· ||| ·) 0
  else if a = 0 then 0 else rf a

/-- One cycle. -/
def next : PReg c → Word := writeAll rf (ws.filter fun x => decide (x.1 ≠ 0))

variable {bypassing rf ws a} {v : Word}

theorem read_zero : read bypassing rf ws 0 = 0 := by
  have hnone : (ws.filter fun x => decide (x.1 ≠ 0) && decide (x.1 = 0)) = [] := by
    rw [List.filter_eq_nil_iff]
    intro x _
    simp
  rw [read, hnone]
  simp

theorem read_of_not_mem (ha : a ≠ 0) (h : ∀ x ∈ ws, x.1 ≠ a) :
    read bypassing rf ws a = rf a := by
  have hnone : (ws.filter fun x => decide (x.1 ≠ 0) && decide (x.1 = a)) = [] := by
    rw [List.filter_eq_nil_iff]
    intro x hx
    simp [h x hx]
  rw [read, hnone]
  simp [ha]

theorem next_of_not_mem (h : ∀ x ∈ ws, x.1 ≠ a) : next rf ws a = rf a :=
  writeAll_of_not_mem fun x hx => h x (List.mem_filter.mp hx).1

theorem next_of_agree (ha : a ≠ 0) (h : ∀ x ∈ ws, x.1 = a → x.2 = v) (hmem : ∃ x ∈ ws, x.1 = a) :
    next rf ws a = v := by
  obtain ⟨x, hx, hxa⟩ := hmem
  refine writeAll_of_agree (fun y hy => h y (List.mem_filter.mp hy).1) ⟨x, ?_, hxa⟩
  exact List.mem_filter.mpr ⟨hx, decide_eq_true (hxa ▸ ha)⟩

end RegisterFile

/-! ### The bypass network -/

namespace RegisterRead

variable {bs : List (ExeUop c × Word)} {rtype : RType} {pop : PReg c} {d v : Word}

/-- What the ports of the network that have `rf_wen` set offer. -/
def offers (bs : List (ExeUop c × Word)) : List (PReg c × Word) :=
  (bs.filter fun b => b.1.kind.rfWen).map fun b => (b.1.pdst, b.2)

/-- `bypassed_rs1_data`, and `bypassed_rs2_data`: `d` is what the register file reads. -/
def bypassed (bs : List (ExeUop c × Word)) (rtype : RType) (pop : PReg c) (d : Word) : Word :=
  if rtype = .fix ∧ pop ≠ 0 then pick (offers bs) pop d else d

theorem mem_offers {x : PReg c × Word} :
    x ∈ offers bs ↔ ∃ b ∈ bs, b.1.kind.rfWen = true ∧ (b.1.pdst, b.2) = x := by
  rw [offers, List.mem_map]
  refine exists_congr fun b => ?_
  rw [List.mem_filter, and_assoc]

theorem bypassed_of_not_mem (h : ∀ b ∈ bs, b.1.kind.rfWen = true → b.1.pdst ≠ pop) :
    bypassed bs rtype pop d = d := by
  rw [bypassed]
  split
  · refine pick_of_not_mem ?_
    intro x hx
    obtain ⟨b, hb, hwen, rfl⟩ := mem_offers.mp hx
    exact h b hb hwen
  · rfl

/-- **An operand that is under way is taken from the network.** -/
theorem bypassed_of_agree (hfix : rtype = .fix) (hpop : pop ≠ 0)
    (h : ∀ b ∈ bs, b.1.kind.rfWen = true → b.1.pdst = pop → b.2 = v)
    (hmem : ∃ b ∈ bs, b.1.kind.rfWen = true ∧ b.1.pdst = pop) : bypassed bs rtype pop d = v := by
  rw [bypassed, if_pos ⟨hfix, hpop⟩]
  obtain ⟨b, hb, hwen, hpdst⟩ := hmem
  refine pick_of_agree ?_ ⟨_, mem_offers.mpr ⟨b, hb, hwen, rfl⟩, hpdst⟩
  intro x hx hxa
  obtain ⟨b', hb', hwen', rfl⟩ := mem_offers.mp hx
  exact h b' hb' hwen' hxa

theorem bypassed_zero : bypassed bs rtype (0 : PReg c) d = d := if_neg fun h => h.2 rfl

end RegisterRead

end RiscvSoc
