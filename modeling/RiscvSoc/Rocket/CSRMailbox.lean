import RiscvSoc.Rocket.CSRFile

/-!
# The host's side of the registers

Every request that the host makes to `CSRFile` is served in one cycle, in which the processor leaves
the port alone, and gets one reply, with the value of the register in that cycle. Whatever the
processor does, the accepted requests are answered in order: the file has room for one request, and
takes the next one only when the reply to the last is gone.

A value that goes into `tohost` comes out exactly once. The processor cannot overwrite it, but the
host can: the guard of the register lets every write of the host pass, so that the first request to
`tohost` takes the value out, be it a read that returns it or a write that replaces it. In the other
direction the guard holds for the host, and only the processor can overwrite `fromhost`.

A request is in the hands of the file even over a reset, so a run can begin with one that nobody
made in the run. Its reply is not a reply to a request of the run.
-/

namespace RiscvSoc

/-- A value that is put into `tohost`. -/
structure Put where
  value : BitVec 64
  byCpu : Bool
  deriving DecidableEq

/-- A value that a request of the host takes out of `tohost`. -/
structure Taken where
  cycle : ℕ
  value : BitVec 64
  req : PCRReq
  deriving DecidableEq

/-- What has happened, with the number of the cycle. Once the host has made a request, the cycles in
which one is served are kept with the whole state. -/
structure CSRLog (c : CSRConf) where
  now : ℕ
  reqs : List (ℕ × PCRReq)
  served : List (ℕ × CSRFile c × CSRIn c)
  replies : List (ℕ × BitVec 64)
  put : List Put
  taken : List Taken

def CSRLog.empty (c : CSRConf) : CSRLog c := ⟨0, [], [], [], [], []⟩

namespace CSRFile

variable {c : CSRConf} (d : AddrDecoder) (s : CSRFile c) (i : CSRIn c)

/-- A value is put into `tohost`: by the processor, if it is empty, or by the host. -/
def puts : Bool :=
  s.writes d i .tohost && decide (s.wdata i ≠ 0) && (!cpuReqValid i || decide (s.tohost = 0))

/-- A request of the host to `tohost`, with a value in it. -/
def takes : Bool := s.hostPcrReqFire i && s.selects d i .tohost && decide (s.tohost ≠ 0)

def note (g : CSRLog c) : CSRLog c where
  now := g.now + 1
  reqs := g.reqs ++ (s.pcrReqFire i).toList.map (g.now, ·)
  served := g.served ++ if s.hostPcrReqFire i && !g.reqs.isEmpty then [(g.now, s, i)] else []
  replies :=
    g.replies ++ if s.pcrRepFire i && !g.reqs.isEmpty then [(g.now, s.hostPcrBits.data)] else []
  put := g.put ++ if s.puts d i then [⟨s.wdata i, cpuReqValid i⟩] else []
  taken := g.taken ++ if s.takes d i then [⟨g.now, s.tohost, s.hostPcrBits⟩] else []

/-- The file after a reset, with its log. -/
def machine (c : CSRConf) : Machine (CSRFile c × CSRLog c) (CSRIn c) :=
  (Machine.clocked IsReset (next d)).observe (.empty c) (note d)

end CSRFile

/-- A request that has been answered. -/
structure Exchange (c : CSRConf) where
  accepted : ℕ × PCRReq
  served : ℕ × CSRFile c × CSRIn c
  replied : ℕ × BitVec 64

/-- The reply has the value of the register in a cycle after the request and before the reply. -/
structure Exchange.Ok {c : CSRConf} (e : Exchange c) : Prop where
  before : e.accepted.1 < e.served.1
  after : e.served.1 < e.replied.1
  request : e.served.2.1.hostPcrBits = e.accepted.2
  value : ∀ r : CSR, r.addr = e.accepted.2.portAddr →
    e.replied.2 = e.served.2.1.value e.served.2.2 r

/-- What the mailboxes promise.

The replies are those to the first requests, one each, and at most one request is open. What was put
into `tohost` was taken out, in order, but for the value that is there. What the requests of the run
took is what the register had when they were served. And a value in `fromhost` is safe from the
host. -/
structure CSRLog.Faithful {c : CSRConf} (d : AddrDecoder) (s : CSRFile c) (g : CSRLog c) :
    Prop where
  exchanges : ∃ es : List (Exchange c), (∀ e ∈ es, e.Ok) ∧ g.replies = es.map (·.replied) ∧
    ∃ accepted served, g.reqs = es.map (·.accepted) ++ accepted ∧
      g.served = es.map (·.served) ++ served ∧
        served.length ≤ accepted.length ∧ accepted.length ≤ 1
  tohost : g.put.map (·.value) = g.taken.map (·.value) ++ if s.tohost = 0 then [] else [s.tohost]
  taken : ∀ e ∈ g.taken, (∀ q ∈ g.reqs, e.cycle < q.1) ∨
    ∃ s' i', (e.cycle, s', i') ∈ g.served ∧ s'.tohost = e.value ∧ s'.hostPcrBits = e.req ∧
      s'.selects d i' .tohost = true
  fromhost : ∀ i, s.fromhost ≠ 0 → CSRFile.cpuReqValid i = false →
    (s.next d i).fromhost = s.fromhost

namespace CSRFile

variable {c : CSRConf} {d : AddrDecoder} {s : CSRFile c} {i : CSRIn c} {g : CSRLog c}

/-! ### Reading the port -/

/-- Only one register is read, if no other one has anything to say. -/
theorem foldr_or_eq {f : CSR → BitVec 64} {r : CSR} (hf : ∀ r', r' ≠ r → f r' = 0#64)
    (rs : List CSR) : rs.foldr (fun r x => f r ||| x) 0#64 = if r ∈ rs then f r else 0#64 := by
  induction rs with
  | nil => rfl
  | cons r' rs ih =>
    rw [List.foldr_cons, ih]
    by_cases h : r' = r
    · subst h
      rw [if_pos List.mem_cons_self]
      split
      · exact BitVec.or_self
      · exact BitVec.or_zero
    · have hmem : r ∈ r' :: rs ↔ r ∈ rs :=
        ⟨List.mem_of_ne_of_mem (Ne.symm h), List.mem_cons_of_mem r'⟩
      rw [hf r' h, BitVec.zero_or, if_congr hmem rfl rfl]

theorem rdata_eq {r : CSR} (h : s.addr i = r.addr) : s.rdata d i = s.value i r := by
  have hsel : ∀ r', s.selects d i r' = decide (r = r') := by
    intro r'
    rw [selects, h, d.sel_addr]
  have hzero : ∀ r', r' ≠ r → (if s.selects d i r' then s.value i r' else 0#64) = 0#64 := by
    intro r' hne
    rw [hsel, decide_eq_false (Ne.symm hne), if_neg (by simp)]
  rw [rdata, foldr_or_eq hzero, if_pos r.mem_all, hsel, decide_eq_true rfl, if_pos rfl]

/-- While a request of the host is served, the port has the request. -/
theorem hostPcrReqFire_iff : s.hostPcrReqFire i = true ↔
    s.hostPcrReqValid = true ∧ cpuReqValid i = false := by
  rw [hostPcrReqFire, Bool.and_eq_true, Bool.not_eq_true']

theorem hostPcrReqFire_of_busy (h : cpuReqValid i = true) : s.hostPcrReqFire i = false := by
  rw [hostPcrReqFire, h, Bool.not_true, Bool.and_false]

theorem addr_of_fire (h : s.hostPcrReqFire i = true) : s.addr i = s.hostPcrBits.portAddr := by
  rw [addr, (hostPcrReqFire_iff.mp h).2, if_neg (by simp)]

/-! ### The two mailboxes -/

/-- What is in the register. -/
def held (x : BitVec 64) : List (BitVec 64) := if x = 0 then [] else [x]

/-- The processor has the port: it puts a value into an empty register, or nothing changes. -/
theorem tohost_of_cpu (h : cpuReqValid i = true) :
    s.takes d i = false ∧ held (s.next d i).tohost =
      held s.tohost ++ if s.puts d i then [s.wdata i] else [] := by
  have hfire : s.hostPcrReqFire i = false := hostPcrReqFire_of_busy h
  refine ⟨by rw [takes, hfire, Bool.false_and, Bool.false_and], ?_⟩
  show held (s.nextTohost d i) = _
  rw [nextTohost, puts, hfire, h]
  cases s.writes d i .tohost with
  | false => simp
  | true =>
    by_cases hempty : s.tohost = 0#64
    · by_cases hzero : s.wdata i = 0#64 <;> simp [held, hempty, hzero]
    · simp [hempty]

/-- The host has the port: what is in the register comes out, and what the host writes goes in. -/
theorem tohost_of_host (h : s.hostPcrReqFire i = true) :
    (if s.takes d i then [s.tohost] else []) ++ held (s.next d i).tohost =
      held s.tohost ++ if s.puts d i then [s.wdata i] else [] := by
  have hcpu := (hostPcrReqFire_iff.mp h).2
  show _ ++ held (s.nextTohost d i) = _
  rw [nextTohost, takes, puts, writes, wen, h, hcpu]
  cases s.selects d i .tohost with
  | false => simp
  | true =>
    cases s.hostPcrBits.rw with
    | false => by_cases hempty : s.tohost = 0#64 <;> simp [held, hempty]
    | true =>
      by_cases hempty : s.tohost = 0#64 <;> by_cases hzero : s.wdata i = 0#64 <;>
        simp [held, hempty, hzero]

theorem tohost_of_idle (hcpu : cpuReqValid i = false) (h : s.hostPcrReqFire i = false) :
    s.takes d i = false ∧ s.puts d i = false ∧ (s.next d i).tohost = s.tohost := by
  have hwrites : s.writes d i .tohost = false := by
    rw [writes, wen, hcpu, h, Bool.false_and, Bool.or_false, Bool.false_and]
  refine ⟨by rw [takes, h, Bool.false_and, Bool.false_and],
    by rw [puts, hwrites, Bool.false_and, Bool.false_and], ?_⟩
  show s.nextTohost d i = _
  rw [nextTohost, hwrites, h]
  rfl

/-- **One cycle of `tohost`.** -/
theorem tohost_step : (if s.takes d i then [s.tohost] else []) ++ held (s.next d i).tohost =
    held s.tohost ++ if s.puts d i then [s.wdata i] else [] := by
  cases hcpu : cpuReqValid i with
  | true =>
    obtain ⟨htakes, hheld⟩ := tohost_of_cpu (d := d) (s := s) hcpu
    rw [htakes, hheld]
    rfl
  | false =>
    cases hfire : s.hostPcrReqFire i with
    | true => exact tohost_of_host hfire
    | false =>
      obtain ⟨htakes, hputs, hnext⟩ := tohost_of_idle (d := d) hcpu hfire
      rw [htakes, hputs, hnext, if_neg (by simp), if_neg (by simp),
        List.append_nil, List.nil_append]

/-- **Only the processor overwrites a value in `fromhost`.** -/
theorem fromhost_step (h : s.fromhost ≠ 0) (hcpu : cpuReqValid i = false) :
    (s.next d i).fromhost = s.fromhost := by
  show s.nextFromhost d i = _
  have hwrites : s.writes d i .fromhost = true → s.hostPcrReqFire i = true := by
    intro hw
    have hwen := (Bool.and_eq_true_iff.mp hw).1
    rw [wen, hcpu, Bool.false_or] at hwen
    exact (Bool.and_eq_true_iff.mp hwen).1
  rw [nextFromhost, decide_eq_false h, Bool.false_or]
  cases hw : s.writes d i .fromhost with
  | false => rfl
  | true =>
    rw [hwrites hw]
    rfl

/-! ### The handshake -/

/-- Where the requests are that have no reply yet: nowhere, in the register, or in the register with
the value in place of the data. -/
inductive Phase (d : AddrDecoder) (s : CSRFile c) (g : CSRLog c) :
    List (ℕ × PCRReq) → List (ℕ × CSRFile c × CSRIn c) → Prop
  | idle : s.hostPcrReqValid = false → s.hostPcrRepValid = false → Phase d s g [] []
  | waiting (q : ℕ × PCRReq) : s.hostPcrReqValid = true → s.hostPcrRepValid = false →
      s.hostPcrBits = q.2 → q.1 < g.now → Phase d s g [q] []
  | answered (q : ℕ × PCRReq) (v : ℕ × CSRFile c × CSRIn c) : s.hostPcrReqValid = false →
      s.hostPcrRepValid = true → q.1 < v.1 → v.1 < g.now → v.2.1.hostPcrBits = q.2 →
      v.2.1.addr v.2.2 = q.2.portAddr → s.hostPcrBits.data = v.2.1.rdata d v.2.2 →
      Phase d s g [q] [v]

/-- Answered requests, and what is open. Before the first request, nothing is known about the
registers of the handshake, and nothing of the run is in them. -/
structure HandshakeInv (d : AddrDecoder) (s : CSRFile c) (g : CSRLog c) (es : List (Exchange c))
    (qs : List (ℕ × PCRReq)) (vs : List (ℕ × CSRFile c × CSRIn c)) : Prop where
  ok : ∀ e ∈ es, e.Ok
  replies : g.replies = es.map (·.replied)
  reqs : g.reqs = es.map (·.accepted) ++ qs
  served : g.served = es.map (·.served) ++ vs
  phase : Phase d s g qs vs ∨ es = [] ∧ qs = [] ∧ vs = []

theorem pcrReqFire_of_not_ready (h : s.pcrReqReady = false) : s.pcrReqFire i = none := by
  rw [pcrReqFire, h, if_neg (by simp)]

theorem phase_of_accept {r : PCRReq} (h : s.pcrReqFire i = some r) :
    Phase d (s.next d i) (s.note d i g) [(g.now, r)] [] := by
  have hready : s.pcrReqReady = true := by
    by_contra hno
    rw [pcrReqFire_of_not_ready (Bool.eq_false_of_not_eq_true hno)] at h
    cases h
  obtain ⟨hreq, hrep⟩ := Bool.and_eq_true_iff.mp hready
  rw [Bool.not_eq_true'] at hreq hrep
  have hfire : s.hostPcrReqFire i = false := by rw [hostPcrReqFire, hreq, Bool.false_and]
  refine .waiting _ ?_ ?_ ?_ (Nat.lt_succ_self g.now)
  · show ((s.pcrReqFire i).isSome || _) = true
    rw [h]
    rfl
  · show (!s.pcrRepFire i && (s.hostPcrRepValid || s.hostPcrReqFire i)) = false
    rw [hrep, hfire, Bool.or_false, Bool.and_false]
  · show s.nextHostPcrBits d i = r
    rw [nextHostPcrBits, hfire, h]
    rfl

theorem phase_of_idle (hreq : s.hostPcrReqValid = false) (hrep : s.hostPcrRepValid = false)
    (h : s.pcrReqFire i = none) : Phase d (s.next d i) (s.note d i g) [] [] := by
  refine .idle ?_ ?_
  · show ((s.pcrReqFire i).isSome || s.hostPcrReqValid && _) = false
    rw [h, hreq]
    rfl
  · show (!s.pcrRepFire i && (s.hostPcrRepValid || s.hostPcrReqFire i)) = false
    rw [hrep, hostPcrReqFire, hreq, Bool.false_and, Bool.or_false, Bool.and_false]

variable {q : ℕ × PCRReq}

section

variable (hreq : s.hostPcrReqValid = true) (hrep : s.hostPcrRepValid = false)
  (hbits : s.hostPcrBits = q.2) (hq : q.1 < g.now)
include hreq hrep hbits hq

theorem phase_of_busy
    (hcpu : cpuReqValid i = true) : Phase d (s.next d i) (s.note d i g) [q] [] := by
  have hnone : s.pcrReqFire i = none := pcrReqFire_of_not_ready (by rw [pcrReqReady, hreq]; rfl)
  have hfire : s.hostPcrReqFire i = false := hostPcrReqFire_of_busy hcpu
  refine .waiting q ?_ ?_ ?_ (Nat.lt_succ_of_lt hq)
  · show ((s.pcrReqFire i).isSome || s.hostPcrReqValid && !s.hostPcrReqFire i) = true
    rw [hnone, hreq, hfire]
    rfl
  · show (!s.pcrRepFire i && (s.hostPcrRepValid || s.hostPcrReqFire i)) = false
    rw [hrep, hfire, Bool.or_false, Bool.and_false]
  · show s.nextHostPcrBits d i = q.2
    rw [nextHostPcrBits, hfire, hnone]
    exact hbits

theorem phase_of_serve (hcpu : cpuReqValid i = false) :
    Phase d (s.next d i) (s.note d i g) [q] [(g.now, s, i)] := by
  have hnone : s.pcrReqFire i = none := pcrReqFire_of_not_ready (by rw [pcrReqReady, hreq]; rfl)
  have hfire : s.hostPcrReqFire i = true := hostPcrReqFire_iff.mpr ⟨hreq, hcpu⟩
  refine .answered q _ ?_ ?_ hq (Nat.lt_succ_self g.now) hbits ?_ ?_
  · show ((s.pcrReqFire i).isSome || s.hostPcrReqValid && !s.hostPcrReqFire i) = false
    rw [hnone, hfire, Bool.not_true, Bool.and_false]
    rfl
  · show (!s.pcrRepFire i && (s.hostPcrRepValid || s.hostPcrReqFire i)) = true
    rw [pcrRepFire, hrep, hfire]
    rfl
  · rw [addr_of_fire hfire, hbits]
  · show (s.nextHostPcrBits d i).data = _
    rw [nextHostPcrBits, hfire]
    rfl

end

theorem phase_of_answered {v : ℕ × CSRFile c × CSRIn c} (hreq : s.hostPcrReqValid = false)
    (hrep : s.hostPcrRepValid = true) (hqv : q.1 < v.1) (hv : v.1 < g.now)
    (hbits : v.2.1.hostPcrBits = q.2) (haddr : v.2.1.addr v.2.2 = q.2.portAddr)
    (hdata : s.hostPcrBits.data = v.2.1.rdata d v.2.2) :
    i.pcrRepReady = true ∧ Phase d (s.next d i) (s.note d i g) [] [] ∨
      i.pcrRepReady = false ∧ Phase d (s.next d i) (s.note d i g) [q] [v] := by
  have hnone : s.pcrReqFire i = none :=
    pcrReqFire_of_not_ready (by rw [pcrReqReady, hrep, Bool.not_true, Bool.and_false])
  have hfire : s.hostPcrReqFire i = false := by rw [hostPcrReqFire, hreq, Bool.false_and]
  have hreq' : (s.next d i).hostPcrReqValid = false := by
    show ((s.pcrReqFire i).isSome || s.hostPcrReqValid && _) = false
    rw [hnone, hreq]
    rfl
  have hrep' : (s.next d i).hostPcrRepValid = !i.pcrRepReady := by
    show (!s.pcrRepFire i && (s.hostPcrRepValid || s.hostPcrReqFire i)) = _
    rw [pcrRepFire, hrep, Bool.true_or, Bool.and_true, Bool.true_and]
  have hdata' : (s.next d i).hostPcrBits = s.hostPcrBits := by
    show s.nextHostPcrBits d i = _
    rw [nextHostPcrBits, hfire, hnone]
    rfl
  cases hready : i.pcrRepReady with
  | true => exact .inl ⟨rfl, .idle hreq' (by rw [hrep', hready]; rfl)⟩
  | false => exact .inr ⟨rfl, .answered q v hreq' (by rw [hrep', hready]; rfl) hqv
      (Nat.lt_succ_of_lt hv) hbits haddr (by rw [hdata', hdata])⟩

variable {es : List (Exchange c)} {qs : List (ℕ × PCRReq)} {vs : List (ℕ × CSRFile c × CSRIn c)}

theorem HandshakeInv.log_quiet (h : HandshakeInv d s g es qs vs)
    (hserve : (s.hostPcrReqFire i && !g.reqs.isEmpty) = false)
    (hreply : (s.pcrRepFire i && !g.reqs.isEmpty) = false) :
    (s.note d i g).reqs = es.map (·.accepted) ++ (qs ++ (s.pcrReqFire i).toList.map (g.now, ·)) ∧
      (s.note d i g).served = es.map (·.served) ++ vs ∧
        (s.note d i g).replies = es.map (·.replied) := by
  refine ⟨?_, ?_, ?_⟩
  · show g.reqs ++ _ = _
    rw [h.reqs, List.append_assoc]
  · show g.served ++ _ = _
    rw [hserve, if_neg (by simp), List.append_nil, h.served]
  · show g.replies ++ _ = _
    rw [hreply, if_neg (by simp), List.append_nil, h.replies]

/-- Nothing is open, or nothing is known yet: at most a request comes in. -/
theorem HandshakeInv.step_closed (h : HandshakeInv d s g es [] [])
    (hstate : s.hostPcrReqValid = false ∧ s.hostPcrRepValid = false ∨ g.reqs = []) :
    ∃ qs', HandshakeInv d (s.next d i) (s.note d i g) es qs' [] := by
  have hserve : (s.hostPcrReqFire i && !g.reqs.isEmpty) = false := by
    rcases hstate with ⟨hreq, -⟩ | hnil
    · rw [hostPcrReqFire, hreq, Bool.false_and, Bool.false_and]
    · rw [hnil, List.isEmpty_nil, Bool.not_true, Bool.and_false]
  have hreply : (s.pcrRepFire i && !g.reqs.isEmpty) = false := by
    rcases hstate with ⟨-, hrep⟩ | hnil
    · rw [pcrRepFire, hrep, Bool.false_and, Bool.false_and]
    · rw [hnil, List.isEmpty_nil, Bool.not_true, Bool.and_false]
  obtain ⟨hreqs, hserved, hreplies⟩ := h.log_quiet hserve hreply
  cases hin : s.pcrReqFire i with
  | some r =>
    rw [hin] at hreqs
    exact ⟨[(g.now, r)], h.ok, hreplies, hreqs, hserved, .inl (phase_of_accept hin)⟩
  | none =>
    rw [hin] at hreqs
    refine ⟨[], h.ok, hreplies, hreqs, hserved, ?_⟩
    rcases hstate with ⟨hreq, hrep⟩ | hnil
    · exact .inl (phase_of_idle hreq hrep hin)
    · have hes := h.reqs
      rw [hnil, List.append_nil] at hes
      exact .inr ⟨List.map_eq_nil_iff.mp hes.symm, rfl, rfl⟩

variable {q : ℕ × PCRReq}

theorem HandshakeInv.not_isEmpty (h : HandshakeInv d s g es (q :: qs) vs) :
    (!g.reqs.isEmpty) = true := by
  rw [h.reqs]
  cases es <;> rfl

theorem HandshakeInv.step_waiting (h : HandshakeInv d s g es [q] [])
    (hreq : s.hostPcrReqValid = true) (hrep : s.hostPcrRepValid = false)
    (hbits : s.hostPcrBits = q.2) (hq : q.1 < g.now) :
    cpuReqValid i = true ∧ HandshakeInv d (s.next d i) (s.note d i g) es [q] [] ∨
      cpuReqValid i = false ∧
        HandshakeInv d (s.next d i) (s.note d i g) es [q] [(g.now, s, i)] := by
  have hnone : s.pcrReqFire i = none := pcrReqFire_of_not_ready (by rw [pcrReqReady, hreq]; rfl)
  have hreply : (s.pcrRepFire i && !g.reqs.isEmpty) = false := by
    rw [pcrRepFire, hrep, Bool.false_and, Bool.false_and]
  cases hcpu : cpuReqValid i with
  | true =>
    have hserve : (s.hostPcrReqFire i && !g.reqs.isEmpty) = false := by
      rw [hostPcrReqFire_of_busy hcpu, Bool.false_and]
    obtain ⟨hreqs, hserved, hreplies⟩ := h.log_quiet hserve hreply
    rw [hnone] at hreqs
    exact .inl ⟨rfl, h.ok, hreplies, hreqs, hserved,
      .inl (phase_of_busy hreq hrep hbits hq hcpu)⟩
  | false =>
    have hserve : (s.hostPcrReqFire i && !g.reqs.isEmpty) = true := by
      rw [hostPcrReqFire_iff.mpr ⟨hreq, hcpu⟩, h.not_isEmpty]
      rfl
    refine .inr ⟨rfl, h.ok, ?_, ?_, ?_, .inl (phase_of_serve hreq hrep hbits hq hcpu)⟩
    · show g.replies ++ _ = _
      rw [hreply, if_neg (by simp), List.append_nil, h.replies]
    · show g.reqs ++ _ = _
      rw [hnone, h.reqs]
      exact List.append_nil _
    · show g.served ++ _ = _
      rw [hserve, if_pos rfl, h.served, List.append_nil]

theorem HandshakeInv.step_answered {v : ℕ × CSRFile c × CSRIn c} (h : HandshakeInv d s g es [q] [v])
    (hreq : s.hostPcrReqValid = false) (hrep : s.hostPcrRepValid = true) (hqv : q.1 < v.1)
    (hv : v.1 < g.now) (hbits : v.2.1.hostPcrBits = q.2) (haddr : v.2.1.addr v.2.2 = q.2.portAddr)
    (hdata : s.hostPcrBits.data = v.2.1.rdata d v.2.2) :
    i.pcrRepReady = true ∧ HandshakeInv d (s.next d i) (s.note d i g)
        (es ++ [⟨q, v, (g.now, s.hostPcrBits.data)⟩]) [] [] ∨
      i.pcrRepReady = false ∧ HandshakeInv d (s.next d i) (s.note d i g) es [q] [v] := by
  have hnone : s.pcrReqFire i = none :=
    pcrReqFire_of_not_ready (by rw [pcrReqReady, hrep, Bool.not_true, Bool.and_false])
  have hserve : (s.hostPcrReqFire i && !g.reqs.isEmpty) = false := by
    rw [hostPcrReqFire, hreq, Bool.false_and, Bool.false_and]
  rcases phase_of_answered (g := g) (i := i) hreq hrep hqv hv hbits haddr hdata with
    ⟨hready, hphase⟩ | ⟨hready, hphase⟩
  · have hreply : (s.pcrRepFire i && !g.reqs.isEmpty) = true := by
      rw [pcrRepFire, hrep, hready, h.not_isEmpty]
      rfl
    refine .inl ⟨hready, ?_, ?_, ?_, ?_, .inl hphase⟩
    · intro e he
      rcases List.mem_append.mp he with he | he
      · exact h.ok e he
      · obtain rfl := List.mem_singleton.mp he
        exact ⟨hqv, hv, hbits, fun r hr => hdata.trans (rdata_eq (haddr.trans hr.symm))⟩
    · show g.replies ++ _ = _
      rw [hreply, if_pos rfl, h.replies, List.map_append]
      rfl
    · show g.reqs ++ _ = _
      rw [hnone, h.reqs, List.map_append]
      rfl
    · show g.served ++ _ = _
      rw [hserve, h.served, List.map_append]
      rfl
  · have hreply : (s.pcrRepFire i && !g.reqs.isEmpty) = false := by
      rw [pcrRepFire, hready, Bool.and_false, Bool.false_and]
    obtain ⟨hreqs, hserved, hreplies⟩ := h.log_quiet hserve hreply
    rw [hnone] at hreqs
    exact .inr ⟨hready, h.ok, hreplies, hreqs, hserved, .inl hphase⟩

/-- **The handshake step.** -/
theorem HandshakeInv.step (h : HandshakeInv d s g es qs vs) (i : CSRIn c) :
    ∃ es' qs' vs', HandshakeInv d (s.next d i) (s.note d i g) es' qs' vs' := by
  rcases h.phase with hphase | ⟨rfl, rfl, rfl⟩
  · cases hphase with
    | idle hreq hrep =>
      obtain ⟨qs', h'⟩ := h.step_closed (i := i) (.inl ⟨hreq, hrep⟩)
      exact ⟨_, _, _, h'⟩
    | waiting q hreq hrep hbits hq =>
      rcases h.step_waiting (i := i) hreq hrep hbits hq with ⟨-, h'⟩ | ⟨-, h'⟩
      · exact ⟨_, _, _, h'⟩
      · exact ⟨_, _, _, h'⟩
    | answered q v hreq hrep hqv hv hbits haddr hdata =>
      rcases h.step_answered (i := i) hreq hrep hqv hv hbits haddr hdata with ⟨-, h'⟩ | ⟨-, h'⟩
      · exact ⟨_, _, _, h'⟩
      · exact ⟨_, _, _, h'⟩
  · obtain ⟨qs', h'⟩ := h.step_closed (i := i) (.inr h.reqs)
    exact ⟨_, _, _, h'⟩

theorem HandshakeInv.empty : HandshakeInv d s (.empty c) [] [] [] where
  ok _ he := absurd he List.not_mem_nil
  replies := rfl
  reqs := rfl
  served := rfl
  phase := .inr ⟨rfl, rfl, rfl⟩

theorem HandshakeInv.lengths (h : HandshakeInv d s g es qs vs) :
    vs.length ≤ qs.length ∧ qs.length ≤ 1 := by
  rcases h.phase with hphase | ⟨-, rfl, rfl⟩
  · cases hphase <;> exact ⟨by simp, by simp⟩
  · exact ⟨le_rfl, Nat.zero_le 1⟩

/-! ### What comes out of `tohost` -/

/-- A value that was taken out: before the first request of the run, or by a request of the run. -/
def TakenOk (d : AddrDecoder) (g : CSRLog c) (e : Taken) : Prop :=
  e.cycle < g.now ∧ ((∀ q ∈ g.reqs, e.cycle < q.1) ∨
    ∃ s' i', (e.cycle, s', i') ∈ g.served ∧ s'.tohost = e.value ∧ s'.hostPcrBits = e.req ∧
      s'.selects d i' .tohost = true)

theorem TakenOk.step {e : Taken} (h : TakenOk d g e) : TakenOk d (s.note d i g) e := by
  refine ⟨Nat.lt_succ_of_lt h.1, ?_⟩
  rcases h.2 with hold | ⟨s', i', hmem, hrest⟩
  · refine .inl fun q hq => ?_
    rcases List.mem_append.mp hq with hq | hq
    · exact hold q hq
    · obtain ⟨r, -, rfl⟩ := List.mem_map.mp hq
      exact h.1
  · exact .inr ⟨s', i', List.mem_append_left _ hmem, hrest⟩

theorem takenOk_new (h : s.takes d i = true) :
    TakenOk d (s.note d i g) ⟨g.now, s.tohost, s.hostPcrBits⟩ := by
  obtain ⟨hfire, hsel⟩ := Bool.and_eq_true_iff.mp (Bool.and_eq_true_iff.mp h).1
  have hnone : s.pcrReqFire i = none :=
    pcrReqFire_of_not_ready (by rw [pcrReqReady, (hostPcrReqFire_iff.mp hfire).1]; rfl)
  refine ⟨Nat.lt_succ_self g.now, ?_⟩
  cases hnil : g.reqs with
  | nil =>
    refine .inl fun q hq => absurd hq ?_
    show q ∉ g.reqs ++ _
    rw [hnil, hnone]
    exact List.not_mem_nil
  | cons q qs =>
    refine .inr ⟨s, i, ?_, rfl, rfl, hsel⟩
    show _ ∈ g.served ++ _
    rw [hfire, hnil]
    exact List.mem_append_right _ (List.mem_singleton.mpr rfl)

/-- What holds in every reachable state. -/
structure Inv (d : AddrDecoder) (x : CSRFile c × CSRLog c) : Prop where
  handshake : ∃ es qs vs, HandshakeInv d x.1 x.2 es qs vs
  tohost : x.2.put.map (·.value) = x.2.taken.map (·.value) ++ held x.1.tohost
  taken : ∀ e ∈ x.2.taken, TakenOk d x.2 e

theorem Inv.step (h : Inv d (s, g)) (i : CSRIn c) : Inv d (s.next d i, s.note d i g) := by
  obtain ⟨es, qs, vs, hshake⟩ := h.handshake
  refine ⟨hshake.step i, ?_, ?_⟩
  · have hstep := tohost_step (d := d) (s := s) (i := i)
    show (g.put ++ _).map _ = (g.taken ++ _).map _ ++ _
    rw [List.map_append, List.map_append, h.tohost, List.append_assoc, List.append_assoc]
    refine congrArg (_ ++ ·) ?_
    refine Eq.trans ?_ (hstep.symm.trans ?_)
    · cases s.puts d i <;> rfl
    · cases s.takes d i <;> rfl
  · intro e he
    rcases List.mem_append.mp he with he | he
    · exact (h.taken e he).step
    · cases htakes : s.takes d i with
      | false =>
        rw [htakes] at he
        exact absurd he List.not_mem_nil
      | true =>
        rw [htakes] at he
        obtain rfl := List.mem_singleton.mp he
        exact takenOk_new htakes

theorem reachable_inv (d : AddrDecoder) : ∀ x, (machine d c).Reachable x → Inv d x := by
  refine Machine.invariant ?_ ?_
  · rintro ⟨s, g⟩ ⟨hreset, rfl⟩
    refine ⟨⟨[], [], [], HandshakeInv.empty⟩, ?_, fun e he => absurd he List.not_mem_nil⟩
    rw [show (s, CSRLog.empty c).1.tohost = 0 from hreset.tohost]
    rfl
  · rintro ⟨s, g⟩ i ⟨s', g'⟩ - h ⟨hs, hg⟩
    obtain rfl : s' = s.next d i := hs
    obtain rfl : g' = s.note d i g := hg
    exact h.step i

theorem Inv.faithful {x : CSRFile c × CSRLog c} (h : Inv d x) : x.2.Faithful d x.1 := by
  obtain ⟨es, qs, vs, hshake⟩ := h.handshake
  refine ⟨⟨es, hshake.ok, hshake.replies, qs, vs, hshake.reqs, hshake.served, hshake.lengths⟩,
    h.tohost, fun e he => (h.taken e he).2, fun i hne hcpu => fromhost_step hne hcpu⟩

/-! ### Answers -/

section Run

variable {st : ℕ → CSRFile c × CSRLog c} {lab : ℕ → CSRIn c}

section

variable (hrun : (machine d c).Run st lab)
include hrun

theorem handshake_next {u : ℕ}
    (h : HandshakeInv d ((st u).1.next d (lab u)) ((st u).1.note d (lab u) (st u).2) es qs vs) :
    HandshakeInv d (st (u + 1)).1 (st (u + 1)).2 es qs vs := by
  obtain ⟨hs, hg⟩ := hrun.step u
  rw [hs, hg]
  exact h

theorem answered_leaves (hready : ∀ t, ∃ u ≥ t, (lab u).pcrRepReady = true) {t n : ℕ}
    (h : ∃ es q v, HandshakeInv d (st t).1 (st t).2 es [q] [v] ∧ es.length + 1 = n) :
    ∃ u ≥ t, n ≤ (st u).2.replies.length := by
  refine Machine.exists_of_next (P := fun u => ∃ es q v,
    HandshakeInv d (st u).1 (st u).2 es [q] [v] ∧ es.length + 1 = n) h ?_ (hready t)
  rintro u ⟨es, q, v, hinv, hlen⟩
  rcases hinv.phase with hphase | ⟨-, hnil, -⟩
  · cases hphase with
    | answered _ _ hreq hrep hqv hv hbits haddr hdata =>
      rcases hinv.step_answered hreq hrep hqv hv hbits haddr hdata with ⟨hr, h'⟩ | ⟨hr, h'⟩
      · refine .inr ?_
        rw [(handshake_next hrun h').replies, List.length_map, List.length_append, ← hlen]
        rfl
      · exact .inl ⟨ne_true_of_eq_false hr, es, q, v, handshake_next hrun h', hlen⟩
  · cases hnil

theorem waiting_served (hfree : ∀ t, ∃ u ≥ t, cpuReqValid (lab u) = false) {t n : ℕ}
    (h : ∃ es q, HandshakeInv d (st t).1 (st t).2 es [q] [] ∧ es.length + 1 = n) :
    ∃ u ≥ t, ∃ es q v, HandshakeInv d (st u).1 (st u).2 es [q] [v] ∧ es.length + 1 = n := by
  refine Machine.exists_of_next (P := fun u => ∃ es q,
    HandshakeInv d (st u).1 (st u).2 es [q] [] ∧ es.length + 1 = n) h ?_ (hfree t)
  rintro u ⟨es, q, hinv, hlen⟩
  rcases hinv.phase with hphase | ⟨-, hnil, -⟩
  · cases hphase with
    | waiting _ hreq hrep hbits hq =>
      rcases hinv.step_waiting hreq hrep hbits hq with ⟨hc, h'⟩ | ⟨hc, h'⟩
      · exact .inl ⟨by rw [hc]; simp, es, q, handshake_next hrun h', hlen⟩
      · exact .inr ⟨es, q, _, handshake_next hrun h', hlen⟩
  · cases hnil

/-- If the port and the host are free again and again, every request gets its reply. -/
theorem every_answer (hfree : ∀ t, ∃ u ≥ t, cpuReqValid (lab u) = false)
    (hready : ∀ t, ∃ u ≥ t, (lab u).pcrRepReady = true) (t : ℕ) :
    ∃ u ≥ t, (st t).2.reqs.length ≤ (st u).2.replies.length := by
  obtain ⟨es, qs, vs, hinv⟩ := (reachable_inv d _ (hrun.reachable t)).handshake
  have hreqs : (st t).2.reqs.length = es.length + qs.length := by
    rw [hinv.reqs, List.length_append, List.length_map]
  have hreplies : (st t).2.replies.length = es.length := by rw [hinv.replies, List.length_map]
  rw [hreqs]
  have hclosed : qs = [] → ∃ u ≥ t, es.length + qs.length ≤ (st u).2.replies.length := by
    rintro rfl
    exact ⟨t, le_rfl, hreplies.ge⟩
  rcases hinv.phase with hphase | ⟨-, hnil, -⟩
  · cases hphase with
    | idle => exact hclosed rfl
    | waiting q =>
      obtain ⟨u, hu, hanswered⟩ := waiting_served hrun hfree ⟨es, q, hinv, rfl⟩
      obtain ⟨w, hw, hle⟩ := answered_leaves hrun hready hanswered
      exact ⟨w, hu.trans hw, hle⟩
    | answered q v => exact answered_leaves hrun hready ⟨es, q, v, hinv, rfl⟩
  · exact hclosed hnil

end

end Run

end CSRFile

open CSRFile in
/-- **The mailboxes.** Whatever the processor and the host do, in every cycle the log is faithful,
and if the processor leaves the port alone again and again, and the host takes replies again and
again, then every request gets its reply. -/
theorem mailbox_faithful {c : CSRConf} (d : AddrDecoder) {st : ℕ → CSRFile c × CSRLog c}
    {lab : ℕ → CSRIn c} (hrun : (machine d c).Run st lab) :
    (∀ t, (st t).2.Faithful d (st t).1) ∧
      ((∀ t, ∃ u ≥ t, cpuReqValid (lab u) = false) →
        (∀ t, ∃ u ≥ t, (lab u).pcrRepReady = true) →
          ∀ t, ∃ u ≥ t, (st t).2.reqs.length ≤ (st u).2.replies.length) :=
  ⟨fun t => (reachable_inv d _ (hrun.reachable t)).faithful, every_answer hrun⟩

/-! ### A write of the host -/

namespace CSRFile

/-- The widths of the chip. -/
def chip : CSRConf := ⟨32, 43, 13, 1, 1, true, false, false⟩

/-- The decoder without don't-cares. -/
def exactDecoder : AddrDecoder where
  sel a r := decide (a = r.addr)
  sel_addr r r' := decide_eq_decide.mpr
    ⟨List.inj_on_of_nodup_map (List.pairwise_map.mpr CSR.pairwise_addr) r.mem_all r'.mem_all,
      fun h => h ▸ rfl⟩

def start : CSRFile chip where
  epc := 0
  badvaddr := 0
  evec := 0
  compare := 0
  cause := 0
  tohost := 0
  fromhost := 0
  sup0 := 0
  sup1 := 0
  ptbr := 0
  stats := false
  status := .reset
  time := 0
  instret := 0
  uarchCounters _ := 0
  fflags := 0
  frm := 0
  irqTimer := false
  irqIpi := true
  hostPcrReqValid := false
  hostPcrRepValid := false
  hostPcrBits := ⟨false, 0, 0⟩

/-- A cycle with an access of the processor to `tohost`, or none, and a request of the host. -/
def access (cmd : CSRCmd) (x : BitVec 64) (req : Option PCRReq) : CSRIn chip where
  hostId := 0
  pcrReq := req
  pcrRepReady := true
  ipiReqReady := true
  ipiRepValid := false
  rwAddr := CSR.tohost.addr
  rwCmd := cmd
  rwWdata := x
  exception := false
  retire := 0
  uarchCounters _ := 0
  cause := 0
  badvaddrWen := false
  pc := 0
  sret := false
  fcsrFlags := none
  roccInterrupt := false

theorem start_isReset : start.IsReset :=
  ⟨rfl, rfl, rfl, rfl, rfl, rfl, fun _ => rfl, rfl, rfl⟩

/-- The processor writes 5 to `tohost`, and the host asks to write 7. -/
def writeOver : List (CSRIn chip) :=
  [access .write 5 (some ⟨true, 0x1e, 7⟩), access .none 0 none]

/-- The same, and from then on nobody does anything. -/
def inputs (t : ℕ) : CSRIn chip := writeOver.getD t (access .none 0 none)

def states : ℕ → CSRFile chip × CSRLog chip
  | 0 => (start, .empty chip)
  | t + 1 => ((states t).1.next exactDecoder (inputs t),
      (states t).1.note exactDecoder (inputs t) (states t).2)

theorem run_states : (machine exactDecoder chip).Run states inputs where
  init := ⟨start_isReset, rfl⟩
  step _ := ⟨rfl, rfl⟩

theorem inputs_quiet {t : ℕ} (h : 2 ≤ t) : inputs t = access .none 0 none :=
  List.getD_eq_default _ _ h

theorem mailbox_faithful_states : (∀ t, (states t).2.Faithful exactDecoder (states t).1) ∧
    ∀ t, ∃ u ≥ t, (states t).2.reqs.length ≤ (states u).2.replies.length := by
  have h := mailbox_faithful exactDecoder run_states
  refine ⟨h.1, h.2 (fun t => ⟨t + 2, Nat.le_add_right t 2, ?_⟩)
    fun t => ⟨t + 2, Nat.le_add_right t 2, ?_⟩⟩
  · rw [inputs_quiet (Nat.le_add_left 2 t)]
    rfl
  · rw [inputs_quiet (Nat.le_add_left 2 t)]
    rfl

/-- **The host replaces a value of the processor.** The 5 is taken out by the write. -/
theorem mailbox_overwritten : ¬∀ (c : CSRConf) (d : AddrDecoder) (x : CSRFile c × CSRLog c),
    (machine d c).Reachable x → ∀ e ∈ x.2.put.zip x.2.taken, e.1.byCpu = true →
      e.2.req.rw = false := by
  intro h
  have hstart : (machine exactDecoder chip).Reachable (start, .empty chip) :=
    .init ⟨start_isReset, rfl⟩
  have hreach := Machine.reachable_cycles hstart writeOver
  have hfive := h chip exactDecoder _ hreach (⟨5, true⟩, ⟨1, 5, ⟨true, 0x1e, 7⟩⟩) (by decide) rfl
  cases hfive

end CSRFile

end RiscvSoc
