/-
Host-to-guest stream integrity.

The bytes a host sends go through the backlog, packets and RX buffers.  Read in
that order backwards, they are the bytes that were passed in, however framing and
splitting cut them.

* `Streams` — what has been framed for a live connection is what its packets
  carry, delivered ones first;
* `vsock_stream_integrity` — the stream of every connection whose guest still
  receives;
* `vsock_port_reuse` — the one way to lose it: 2³² registrations later a port comes
  back, though all connections but the first were closed long before;
* `vsock_speaks_for_its_ports` — until then, no packet is from a port not handed out.
-/
import HviVmm.VsockLedger
import HviVmm.VsockPorts

open VirtioVsock ByteStore ByteCodec

/-! ### What packets carry -/

section Carried

variable {p q fwd : UInt32} {pkt : Packet} {c c' : Conn} {pkts : List Packet} {evs : List Event}

theorem payload_sent_ne (h : Sent p fwd pkt) (hq : q ≠ p) : payload q pkt = [] := by
  obtain ⟨f, rfl, hsrc, -⟩ := h
  rw [payload_bytes, hsrc, if_neg fun hand => hq hand.2.symm]

theorem payloads_eq_nil (h : ∀ pkt ∈ pkts, payload q pkt = []) : payloads q pkts = [] :=
  List.flatMap_eq_nil_iff.mpr h

theorem fillStep_carried (h : FillStep p c c' pkts evs) :
    payloads p pkts = tally Event.framedBytes evs := by
  cases h with
  | frame => simp [payload_rwPkt]
  | reset => simp [payload_controlPkt (show opRst ≠ opRw by decide)]
  | announce => simp [payload_controlPkt (show opShutdown ≠ opRw by decide)]
  | keep | shutWrite | poll => rfl

theorem hostStep_carried (h : HostStep p c c' pkts evs) :
    payloads p pkts = tally Event.framedBytes evs := by
  cases h with
  | offer => simp
  | gone =>
    split
    · simp [payload_controlPkt (show opShutdown ≠ opRw by decide)]
    · rfl
  | flush =>
    split
    · simp [payload_controlPkt (show opCreditUpdate ≠ opRw by decide)]
    · rfl
  | refuse | queue | full | eof | hungUp | failed => rfl

theorem arriveStep_carried {hdr : Hdr} {body : List UInt8}
    (h : ArriveStep p hdr body c c' pkts evs) :
    payloads p pkts = tally Event.framedBytes evs := by
  cases h with
  | discard | answer => simp [payload_controlPkt (show opCreditUpdate ≠ opRw by decide)]
  | shut =>
    unfold Conn.shutClears
    split <;> rfl
  | ignore | accept | append => rfl

end Carried

namespace VirtioVsock

section Streams

variable {s s' : VirtioVsock} {p : UInt32}
variable {c : Conn} {pkts : List Packet} {evs : List Event}

/-- A packet of the device carries nothing for a port that was not handed out. -/
theorem payload_owned {pkt : Packet} (h : s.Owned pkt) (hp : ¬ s.Used p) : payload p pkt = [] := by
  obtain ⟨f, rfl, ⟨hdr, -, href⟩ | hused⟩ := h
  · rw [href, payload_refusalPkt]
  · have hne : f.hdr.srcPort ≠ p := fun heq => hp (heq ▸ hused)
    rw [payload_bytes, if_neg fun hand => hne hand.2]

/-- Cutting the packet at the front changes no stream. -/
theorem payloads_cutFor (p : UInt32) {cap : ℕ} (hcap : hdrLen ≤ cap) {pkt : Packet}
    (hpkt : s.Owned pkt) (rest : List Packet) :
    payload p (cutFor cap pkt rest).1 ++ payloads p (cutFor cap pkt rest).2 =
      payloads p (pkt :: rest) := by
  unfold cutFor
  split
  · next hlt =>
    obtain ⟨f, rfl, -⟩ := hpkt
    simp only [payloads_cons, ← List.append_assoc, payload_splitPending p hcap hlt]
  · rfl

/-- The condition on a run: no port comes back, and every RX chain the device walks
can be written. -/
structure Sound (s : VirtioVsock) : Prop where
  ports : s.registrations ≤ 2 ^ 32
  chains : ∀ segs ∈ s.walked, Writable s.mem segs

theorem writable_congr {mem mem' : GuestRam} (h : mem'.regions = mem.regions) {segs : List Seg}
    (hw : Writable mem' segs) : Writable mem segs := fun seg hseg =>
  (GuestRam.contains_congr h.symm).trans (hw seg hseg)

theorem Sound.back {l : Label} (h : Step l s s') (hs : Sound s') : Sound s := by
  refine ⟨h.registrations_le.1.trans hs.ports, fun segs hsegs => ?_⟩
  cases h with
  | deliver _ _ hreg | lose _ _ hreg => exact writable_congr hreg (hs.chains segs hsegs)
  | quiet hreg hwalk => exact writable_congr hreg (hs.chains segs (hwalk.subset hsegs))
  | register hn =>
    rw [addConn, if_pos hn] at hs
    exact hs.chains segs hsegs
  | host | arrive | overrun | refuse | fill | ended | reset | dropConns =>
    exact hs.chains segs hsegs

/-- What was framed for a live connection is what the packets carry for its port. -/
structure Streams (s : VirtioVsock) : Prop where
  ports : Ports s
  framed : ∀ p c, s.conn p = some c →
    tally Event.framedBytes (s.history p) = payloads p (s.delivered ++ s.pending)

theorem Streams.framed_record (h : Streams s) (hc : s.conn p = some c)
    (hcarry : payloads p pkts = tally Event.framedBytes evs)
    (hsent : ∀ pkt ∈ pkts, ∃ fwd, Sent p fwd pkt) {q : UInt32} {d : Conn}
    (hd : q = p ∨ s.conn q = some d) : tally Event.framedBytes (record s.history p evs q) =
      payloads q (s.delivered ++ (s.pending ++ pkts)) := by
  rw [← List.append_assoc, payloads_append]
  by_cases hq : q = p
  · subst hq
    rw [record_self, tally_append, h.framed q c hc, hcarry]
  · have hnil : payloads q pkts = [] := payloads_eq_nil fun pkt hpkt => by
      obtain ⟨fwd, hs⟩ := hsent pkt hpkt
      exact payload_sent_ne hs hq
    rw [record_ne _ _ hq, hnil, List.append_nil]
    exact h.framed q d (hd.resolve_left hq)

theorem Streams.commit (h : Streams s) {c' : Conn} (hc : s.conn p = some c)
    (hports : Ports (s.commit p c' pkts evs))
    (hcarry : payloads p pkts = tally Event.framedBytes evs)
    (hsent : ∀ pkt ∈ pkts, ∃ fwd, Sent p fwd pkt) : Streams (s.commit p c' pkts evs) where
  ports := hports
  framed q d hd := by
    refine h.framed_record hc hcarry hsent (d := d) ?_
    by_cases hq : q = p
    · exact .inl hq
    · rw [conn_commit_ne _ _ _ _ hq] at hd
      exact .inr hd

theorem Streams.remove (h : Streams s) (hc : s.conn p = some c)
    (hports : Ports (s.remove p pkts evs)) (hcarry : payloads p pkts = tally Event.framedBytes evs)
    (hsent : ∀ pkt ∈ pkts, ∃ fwd, Sent p fwd pkt) : Streams (s.remove p pkts evs) where
  ports := hports
  framed q d hd := by
    refine h.framed_record hc hcarry hsent (d := d) ?_
    by_cases hq : q = p
    · exact .inl hq
    · rw [conn_remove_ne _ _ _ hq] at hd
      exact .inr hd

/-- What a finished connection leaves carries nothing. -/
theorem farewell_carried (c : Conn) (p : UInt32) : payloads p (c.farewell p) = [] := by
  unfold Conn.farewell
  split
  · split
    · simp [payload_controlPkt (show opRst ≠ opRw by decide)]
    · split
      · simp [payload_controlPkt (show opShutdown ≠ opRw by decide)]
      · rfl
  · rfl

/-- **One step** keeps the streams. -/
theorem Streams.step {l : Label} (hstep : Step l s s') (hsound : Sound s') (h : Streams s) :
    Streams s' := by
  have hports := h.ports.step hstep hsound.ports
  cases hstep with
  | host hc hhost =>
    refine h.commit hc hports (hostStep_carried hhost) fun pkt hpkt => ?_
    rcases hostStep_sent hhost pkt hpkt with hs | ⟨rfl, -⟩
    · exact ⟨_, hs⟩
    · exact ⟨0, sent_requestPkt _⟩
  | arrive _ _ _ hc harr =>
    refine h.commit hc hports ?_ fun pkt hpkt => ⟨_, arriveStep_sent harr pkt hpkt⟩
    rw [arriveStep_carried harr, tally_cons]
    rfl
  | overrun _ _ _ hc =>
    refine h.remove hc hports ?_ fun pkt hpkt => ?_
    · simp [payload_controlPkt (show opRst ≠ opRw by decide)]
    · rw [List.mem_singleton] at hpkt
      exact ⟨_, hpkt ▸ sent_controlPkt ..⟩
  | fill hc hfill =>
    exact h.commit hc hports (fillStep_carried hfill)
      fun pkt hpkt => ⟨_, (fillStep_sent hfill).2 pkt hpkt⟩
  | ended hc =>
    exact h.remove hc hports (farewell_carried _ _) fun pkt hpkt => ⟨_, farewell_sent _ _ pkt hpkt⟩
  | refuse =>
    refine ⟨hports, fun q d hd => ?_⟩
    simpa using h.framed q d hd
  | deliver hpend hcap =>
    refine ⟨hports, fun q d hd => ?_⟩
    have hown := h.ports.owned _
      (by rw [hpend]; exact List.mem_append_right _ (List.mem_cons_self ..))
    have hold := h.framed q d hd
    rw [hpend] at hold
    simp only [payloads_append, payloads_cons, payloads_nil, List.append_nil, List.append_assoc]
      at hold ⊢
    rw [payloads_cutFor q hcap hown, payloads_cons]
    exact hold
  | lose _ _ hreg hsegs hbad =>
    exact absurd (writable_congr hreg (hsound.chains _ hsegs)) hbad
  | quiet => exact ⟨hports, h.framed⟩
  | @register _ stream hn =>
    rw [addConn, if_pos hn] at hports hsound ⊢
    have hnew := h.ports.next_unused hsound.ports
    refine ⟨hports, fun q d hd => ?_⟩
    show tally Event.framedBytes (record s.history s.nextPort [.registered] q) = _
    by_cases hq : q = s.nextPort
    · subst hq
      rw [record_self, h.ports.unused _ hnew]
      exact (payloads_eq_nil fun pkt hpkt => payload_owned (h.ports.owned pkt hpkt) hnew).symm
    · have hlook : AList.lookup q (s.conns.insert s.nextPort { stream }) = some d := hd
      rw [AList.lookup_insert_ne hq] at hlook
      rw [record_ne _ _ hq]
      exact h.framed q d hlook
  | reset => exact ⟨hports, fun q d hd => by cases hd⟩
  | dropConns => exact ⟨hports, fun q d hd => by cases hd⟩

end Streams

end VirtioVsock

/-- Guest memory with one 4 KiB receive buffer in descriptor 0. -/
def rxDesc : ℕ → UInt8 := fun x =>
  if x = 0x40000002 then 0x01 else if x = 0x40000003 then 0x40
  else if x = 0x40000009 then 0x10 else if x = 0x4000000c then 2 else 0

/-- The same with the buffer posted `n` times. -/
def rxRam (n : UInt16) : ℕ → UInt8 := poke rxDesc 0x40001002 (leBytes 2 n.toNat)

/-- The driver sets the RX queue up. -/
def rxSetup : List Call := sampleWrites.map fun w => ⟨.mmioWrite w, fun _ => 0⟩

/-- A connection with three host bytes, two of which have been delivered. -/
def sampleSession : List Call :=
  rxSetup ++
    [⟨.addConn {}, rxRam 1⟩, ⟨.connect 40000, rxRam 1⟩,
      ⟨.handlePkt (agentPkt 40000 opResponse 0 64 0 []), rxRam 1⟩,
      ⟨.hostData 40000 [7, 8], rxRam 2⟩, ⟨.hostData 40000 [9], rxRam 2⟩]

/-- **The device speaks for the ports it handed out.**  In every run that registers at most 2³²
connections, a packet queued or delivered refuses a request of the guest or comes from a port that
`add_conn` handed out, and so does every connection; and the port it would hand out next has no
connection, and never had one. -/
theorem vsock_speaks_for_its_ports (mem : GuestRam) (calls : List Call)
    (hports : calls.countP (·.op.isAddConn) ≤ 2 ^ 32) :
    (∀ pkt ∈ ((fresh mem).run calls).delivered ++ ((fresh mem).run calls).pending,
      ((fresh mem).run calls).Owned pkt) ∧
      (∀ p c, ((fresh mem).run calls).conn p = some c → ((fresh mem).run calls).Used p) ∧
      (calls.countP (·.op.isAddConn) < 2 ^ 32 →
        ((fresh mem).run calls).conn ((fresh mem).run calls).nextPort = none ∧
          ((fresh mem).run calls).history ((fresh mem).run calls).nextPort = []) := by
  have hcount := run_registrations (fresh mem) calls
  have hzero : (fresh mem).registrations = 0 := rfl
  have hall : Ports ((fresh mem).run calls) := by
    refine (run_steps _ calls).inv_of_good
      (fun {_ s' _} _ hstep (hle : s'.registrations ≤ 2 ^ 32) =>
        hstep.registrations_le.1.trans hle) ?_ (ports_fresh mem) (by omega)
    intro s s' l _ hstep hle h
    exact h.step hstep hle
  refine ⟨hall.owned, hall.live, fun hlt => ?_⟩
  have hunused := hall.next_unused (by omega)
  refine ⟨?_, hall.unused _ hunused⟩
  cases hc : ((fresh mem).run calls).conn ((fresh mem).run calls).nextPort with
  | none => rfl
  | some c => exact absurd (hall.live _ c hc) hunused

theorem vsock_speaks_for_its_ports_sample :
    sampleSession.countP (·.op.isAddConn) ≤ 2 ^ 32 ∧
      ∀ pkt ∈ ((fresh sampleRam).run sampleSession).delivered ++
        ((fresh sampleRam).run sampleSession).pending,
        ((fresh sampleRam).run sampleSession).Owned pkt := by
  have hports : sampleSession.countP (·.op.isAddConn) ≤ 2 ^ 32 := by decide +kernel
  exact ⟨hports, (vsock_speaks_for_its_ports sampleRam sampleSession hports).1⟩

/-! ### When a port comes back -/

/-- Connections number `k` to `k + n - 1` are accepted and turned down by the guest, one after
the other; the guest posts its receive buffer once more for each. -/
def refusals (k n : ℕ) : List Call :=
  (List.range n).flatMap fun i =>
    [⟨.addConn {}, rxRam 0⟩, ⟨.connect (portOf (k + i)), rxRam (UInt16.ofNat (k + i) + 1)⟩,
      ⟨.handlePkt (agentPkt (portOf (k + i)) opRst 0 64 0 []), rxRam 0⟩]

theorem eight_valid : (8 : UInt32) = 0 ∨ validNum 8 = true := .inr rfl

/-- The RX queue of `rxSetup` after some buffers. -/
def rxQueue (lastAvail : UInt16) : Queue where
  num := 8
  ready := true
  desc := 0x40000000
  avail := 0x40001000
  used := 0x40002000
  lastAvail := lastAvail
  num_valid := eight_valid

/-- Guest RAM as `rxRam` says. -/
abbrev postedRam (n : UInt16) : GuestRam := { sampleRam with bytes := rxRam n }

theorem rxQueue_pending (j : UInt16) : (rxQueue j).pending (postedRam (j + 1)) = some 1 := by
  have hread : (postedRam (j + 1)).read 0x40001002 2 = some (leBytes 2 (j + 1).toNat) := by
    rw [GuestRam.read_eq rfl]
    exact congrArg some (peek_poke_same rxDesc 0x40001002 (leBytes 2 (j + 1).toNat))
  have hidx : (postedRam (j + 1)).readU16 ((rxQueue j).avail + 2) = some (j + 1) := by
    show (postedRam (j + 1)).readU16 0x40001002 = _
    rw [GuestRam.readU16, hread, Option.map_some, leNat_leBytes (j + 1).toNat_lt]
    exact congrArg some (UInt16.ofNat_toNat ..)
  have hone : j + 1 - j = 1 := by
    rw [UInt16.add_comm, UInt16.add_sub_cancel]
  rw [Queue.pending, hidx]
  show (if j + 1 - j ≤ 8 then some (j + 1 - j) else none) = some 1
  rw [hone]
  rfl

theorem rxQueue_readyOk (j n : UInt16) : (rxQueue j).ReadyOk (postedRam n) := by
  intro _
  have hin : ∀ a len, sampleRam.contains a len = true → (postedRam n).contains a len = true :=
    fun _ _ h => (GuestRam.contains_congr rfl).trans h
  show (true && (postedRam n).contains 0x40000000 128 && (postedRam n).contains 0x40001000 22 &&
    (postedRam n).contains 0x40002000 70) = true
  rw [hin _ _ (by decide), hin _ _ (by decide), hin _ _ (by decide)]
  rfl

/-- Descriptor 0 is one buffer that the device may write. -/
theorem rxQueue_chain (j n : UInt16) :
    (rxQueue j).chain (postedRam n) 0 = ([⟨0x40010000, 0x1000, 2, 0⟩], .done) := by
  have hagree : AgreeOff { x | 0x40001002 ≤ x } rxDesc (rxRam n) := by
    intro x hx
    exact poke_outside (.inl (Nat.lt_of_not_le hx))
  have hdesc : (rxQueue 0).readDesc (postedRam n) 0 =
      (rxQueue 0).readDesc { sampleRam with bytes := rxDesc } 0 := by
    have hok : (rxQueue 0).ReadyOk { sampleRam with bytes := rxDesc } := by
      intro _
      decide
    have hregions : (postedRam n).regions = sampleRam.regions := rfl
    refine Queue.readDesc_congr hok rfl hregions hagree (fun x hx hpast => ?_) 0
    have hend : x < 0x40000000 + 128 := hx.2
    have hpast : 0x40001002 ≤ x := hpast
    omega
  rw [Queue.chain, show (rxQueue j).size.toNat = 7 + 1 from rfl, Queue.walk,
    show (rxQueue j).readDesc (postedRam n) 0 = (rxQueue 0).readDesc (postedRam n) 0 from rfl,
      hdesc,
    show (rxQueue 0).readDesc { sampleRam with bytes := rxDesc } 0 =
      some ⟨0x40010000, 0x1000, 2, 0⟩ by decide +kernel]
  rfl

/-- Every slot of the ring names descriptor 0. -/
theorem rxQueue_slot (j n : UInt16) : ∃ slot, (rxQueue j).availSlot j = some slot ∧
    (postedRam n).readU16 slot = some 0 := by
  obtain ⟨slot, hslot, haddr, hin⟩ := (rxQueue_readyOk j n).availSlot rfl j
  refine ⟨slot, hslot, ?_⟩
  have hpast : 0x40001004 ≤ slot.toNat := by
    rw [haddr]
    show 0x40001004 ≤ 0x40001004 + _
    omega
  have hzero : peek (rxRam n) slot.toNat 2 = [0, 0] := by
    rw [rxRam, peek_poke_disjoint (by simp; omega)]
    have hbyte : ∀ x, 0x40001004 ≤ x → rxDesc x = 0 := by
      intro x hx
      simp only [rxDesc]
      repeat rw [if_neg (by omega)]
    show [rxDesc (slot.toNat + 0), rxDesc (slot.toNat + 1)] = [0, 0]
    rw [hbyte (slot.toNat + 0) hpast, hbyte (slot.toNat + 1) (by omega)]
  rw [GuestRam.readU16, GuestRam.read_eq hin, Option.map_some, hzero]
  rfl

namespace VirtioVsock

/-- Connection number `k` is next, `j` is the next receive buffer, no connection may be served,
and port 40000 was passed one byte and has got no packet with a payload. -/
structure Waiting (k : ℕ) (j : UInt16) (s : VirtioVsock) : Prop where
  next : s.nextPort = portOf k
  queue : s.rx = rxQueue j
  regions : s.mem.regions = sampleRam.regions
  walked : ∀ segs ∈ s.walked, Writable sampleRam segs
  unserved : ∀ p c, s.conn p = some c → c.framable = false
  carried : payloads 40000 s.delivered = []
  passed : tally Event.passedBytes (s.history 40000) = [7]

variable {k : ℕ} {j : UInt16} {s : VirtioVsock} {p : UInt32} {c : Conn} {evs : List Event}
  {pkt : Packet} {pkts : List Packet}

theorem tally_record {f : Event → List UInt8} {evs : List Event} (hevs : tally f evs = [])
    (h : UInt32 → List Event) (p q : UInt32) : tally f (record h p evs q) = tally f (h q) := by
  by_cases hq : q = p
  · subst hq
    rw [record_self, tally_append, hevs, List.append_nil]
  · rw [record_ne _ _ hq]

theorem unserved_insert {q : UInt32} {c' : Conn}
    (h : ∀ p c, s.conn p = some c → c.framable = false) (hf : c.framable = false)
    (hq : (s.conns.insert p c).lookup q = some c') : c'.framable = false := by
  by_cases hp : q = p
  · rw [hp, AList.lookup_insert] at hq
    cases hq
    exact hf
  · rw [AList.lookup_insert_ne hp] at hq
    exact h q c' hq

/-- With nothing pending and no connection to serve, there is nothing to fill. -/
theorem fillLoop_unserved (hidle : s.pending = [])
    (h : ∀ p c, s.conn p = some c → c.framable = false) (n : ℕ) : fillLoop n s = s := by
  cases n with
  | zero => rfl
  | succ n =>
    have hnone : s.refill = none := by
      rw [refill, hidle, List.isEmpty_nil, if_pos rfl]
      cases hf : s.frameBacklog with
      | none => rfl
      | some s' =>
        obtain ⟨p, c, hc, hframable, -⟩ := frameBacklog_spec hf
        exact absurd ((h p c hc).symm.trans hframable) Bool.false_ne_true
    rw [fillLoop, hnone]

theorem Waiting.fillRx (h : Waiting k j s) (hidle : s.pending = []) : s.fillRx = s := by
  unfold VirtioVsock.fillRx
  split
  · exact fillLoop_unserved hidle h.unserved _
  · rfl

theorem Waiting.commit (h : Waiting k j s) (hf : c.framable = false)
    (hevs : tally Event.passedBytes evs = []) : Waiting k j (s.commit p c pkts evs) where
  next := h.next
  queue := h.queue
  regions := h.regions
  walked := h.walked
  unserved _ _ hq := unserved_insert h.unserved hf hq
  carried := h.carried
  passed := (tally_record hevs _ _ _).trans h.passed

theorem Waiting.remove (h : Waiting k j s) (hevs : tally Event.passedBytes evs = []) :
    Waiting k j (s.remove p pkts evs) := by
  refine ⟨h.next, h.queue, h.regions, h.walked, fun q c' hq => ?_, h.carried, ?_⟩
  · by_cases hp : q = p
    · rw [hp, conn_remove_self] at hq
      cases hq
    · rw [conn_remove_ne _ _ _ hp] at hq
      exact h.unserved q c' hq
  · exact (tally_record hevs _ _ _).trans h.passed

/-- The packet that waits goes into the buffer posted. -/
theorem Waiting.deliver (h : Waiting k j s) (hmem : s.mem = postedRam (j + 1))
    (hpending : s.pending = [pkt]) (hlen : pkt.length ≤ 0x1000) (hpkt : payload 40000 pkt = []) :
    s.deliver.1 = true ∧ Waiting k (j + 1) s.deliver.2 ∧ s.deliver.2.pending = [] ∧
      s.deliver.2.conns = s.conns := by
  obtain ⟨slot, hslot, hread⟩ := rxQueue_slot j (j + 1)
  have hhead : s.rxHead = some 0 := by
    rw [rxHead, h.queue, hmem, rxQueue_pending]
    simp only [show (rxQueue j).lastAvail = j from rfl, hslot, hread]
    rfl
  have hchain : s.rxChain 0 = some [(0x40010000, 0x1000)] := by
    rw [rxChain, h.queue, hmem, rxQueue_chain]
    rfl
  have htotal : totalLen [((0x40010000, 0x1000) : Seg)] = 0x1000 := by decide
  have hcap : ¬ (0x1000 < hdrLen ∨ 0x1000 < pkt.length ∧ 0x1000 = hdrLen) := by
    rintro (h | ⟨h, -⟩)
    · exact absurd h (by decide)
    · omega
  have hcut : cutFor 0x1000 pkt [] = (pkt, []) := if_neg (Nat.not_lt.mpr hlen)
  obtain ⟨hreg, hfail, hgot⟩ := writePkt_spec s.mem [(0x40010000, 0x1000)] pkt []
  have hbuffer : Writable sampleRam [(0x40010000, 0x1000)] := by decide
  have hin : Writable s.mem [(0x40010000, 0x1000)] := writable_congr h.regions.symm hbuffer
  have hstored : (writePkt s.mem [(0x40010000, 0x1000)] pkt []).1 = some pkt := by
    cases hw : (writePkt s.mem [(0x40010000, 0x1000)] pkt []).1 with
    | none => exact absurd hin (hfail hw)
    | some got => rw [hgot (htotal ▸ hlen) got hw, List.nil_append]
  unfold VirtioVsock.deliver
  simp only [hhead, hchain, hpending, htotal, if_neg hcap, hcut, place, hstored]
  refine ⟨trivial, ⟨h.next, ?_, ?_, fun segs hsegs => ?_, h.unserved, ?_, h.passed⟩, trivial,
    trivial⟩
  · show Function.update s.transport.queues 0 (s.rx.setLastAvail (s.rx.lastAvail + 1)) 0 = _
    rw [Function.update_self, h.queue]
    rfl
  · exact (Queue.pushUsed_regions ..).trans (hreg.trans h.regions)
  · rcases List.mem_append.mp hsegs with hold | hnew
    · exact h.walked segs hold
    · rw [List.mem_singleton.mp hnew]
      exact hbuffer
  · rw [payloads_append, h.carried, payloads_cons, hpkt]
    rfl

/-- What waits is filled into the buffer posted, and that is all. -/
theorem Waiting.fill_posted (h : Waiting k j s) (hmem : s.mem = postedRam (j + 1))
    (hpending : s.pending = [pkt]) (hlen : pkt.length ≤ 0x1000) (hpkt : payload 40000 pkt = []) :
    Waiting k (j + 1) s.fillRx ∧ s.fillRx.pending = [] ∧ s.fillRx.conns = s.conns := by
  obtain ⟨hgoes, hwait, hidle, hconns⟩ := h.deliver hmem hpending hlen hpkt
  have hrefill : s.refill = some s := by
    rw [refill, hpending]
    rfl
  have hfill : s.fillRx = s.deliver.2 := by
    rw [VirtioVsock.fillRx, if_pos (by rw [h.queue]; rfl), fillLoop, hrefill]
    simp only [hgoes, if_true]
    exact fillLoop_unserved hidle hwait.unserved _
  rw [hfill]
  exact ⟨hwait, hidle, hconns⟩

theorem Waiting.addConn (h : Waiting k j s) (ram : ℕ → UInt8) :
    Waiting (k + 1) j (s.step ⟨.addConn {}, ram⟩) ∧
      (s.step ⟨.addConn {}, ram⟩).conn (portOf k) = some { stream := {} } := by
  refine ⟨⟨?_, h.queue, h.regions, h.walked, fun q c' hq => ?_, h.carried, ?_⟩, ?_⟩
  · show s.nextPort + 1 = portOf (k + 1)
    rw [h.next, portOf, portOf, UInt32.ofNat_add, UInt32.add_assoc]
    rfl
  · exact unserved_insert h.unserved (c := { stream := {} }) rfl hq
  · exact (tally_record rfl _ _ _).trans h.passed
  · show (s.conns.insert s.nextPort { stream := {} }).lookup (portOf k) = _
    rw [h.next, AList.lookup_insert]

theorem Waiting.withRam (h : Waiting k j s) (ram : ℕ → UInt8) :
    Waiting k j { s with mem := { s.mem with bytes := ram } } :=
  ⟨h.next, h.queue, h.regions, h.walked, h.unserved, h.carried, h.passed⟩

/-- The offer is delivered at once. -/
theorem Waiting.connect (h : Waiting k j s) (hidle : s.pending = []) (hc : s.conn p = some c) :
    Waiting k (j + 1) (s.step ⟨.connect p, rxRam (j + 1)⟩) ∧
      (s.step ⟨.connect p, rxRam (j + 1)⟩).pending = [] ∧
      (s.step ⟨.connect p, rxRam (j + 1)⟩).conn p = some { c with state := .offered } := by
  have hram : ({ s.mem with bytes := rxRam (j + 1) } : GuestRam) = postedRam (j + 1) := by
    have hregions := h.regions
    generalize s.mem = mem at hregions
    cases mem
    cases hregions
    rfl
  have hstep : s.step ⟨.connect p, rxRam (j + 1)⟩ =
      (VirtioVsock.commit { s with mem := { s.mem with bytes := rxRam (j + 1) } } p
        { c with state := .offered } [requestPkt p] [.offered]).fillRx := by
    show VirtioVsock.connect _ p = _
    unfold VirtioVsock.connect
    rw [show VirtioVsock.conn { s with mem := { s.mem with bytes := rxRam (j + 1) } } p = some c
      from hc]
  have hoffer :
      Waiting k j (VirtioVsock.commit { s with mem := { s.mem with bytes := rxRam (j + 1) } }
      p { c with state := .offered } [requestPkt p] [.offered]) := (h.withRam _).commit rfl rfl
  obtain ⟨hwait, hnone, hconns⟩ := hoffer.fill_posted hram
    (congrArg (· ++ [requestPkt p]) hidle) (by simp [requestPkt, hdrLen])
      (payload_requestPkt p 40000)
  rw [hstep]
  refine ⟨hwait, hnone, ?_⟩
  rw [conn, hconns]
  exact conn_commit_self ..

/-- The header of the `OP_RST` that turns a connection down. -/
def rstHdr (p : UInt32) : Hdr :=
  { srcCid := guestCid, dstCid := hostCid, srcPort := agentPort, dstPort := p,
    typ := typeStream, op := opRst, bufAlloc := 64 }

/-- A connection that was offered, once the header of that packet is taken. -/
def offeredConn : Conn := { stream := {}, state := .offered, peerBufAlloc := 64 }

/-- The same after the reset. -/
def resetConn : Conn := offeredConn.guestShut (rstHdr 0)

/-- Nobody hears of a connection that the guest reset. -/
theorem settle_reset (hc : s.conn p = some resetConn) :
    s.settle p = (s.commit p resetConn.shutHostWrite [] []).remove p []
      [.ended resetConn.shutHostWrite] := by
  have htold : resetConn.shutHostWrite.tellGuest p = (resetConn.shutHostWrite, []) := by rfl
  have hend : resetConn.shutHostWrite.finished = true := by decide
  have hbye : resetConn.shutHostWrite.farewell p = [] := by rfl
  rw [settle, hc]
  simp only [htold, hend, hbye, if_true]

/-- What the packet does to a connection that was offered. -/
theorem handlePkt_rst (hc : s.conn p = some { stream := {}, state := .offered }) :
    s.handlePkt (agentPkt p opRst 0 64 0 []) =
      ((((s.commit p offeredConn [] [.handled (rstHdr p)]).commit p resetConn []
        [.cleared []]).commit
        p resetConn.shutHostWrite [] []).remove p [] [.ended resetConn.shutHostWrite]).fillRx := by
  have hparse : Hdr.parse (agentPkt p opRst 0 64 0 []) = some (rstHdr p) :=
    Hdr.parse_toBytes (rstHdr p) []
  have hcredit : s.takeCredit (rstHdr p) = s.commit p offeredConn [] [.handled (rstHdr p)] := by
    unfold VirtioVsock.takeCredit
    rw [show s.conn (rstHdr p).dstPort = _ from hc]
    rfl
  have hshut : (s.commit p offeredConn [] [.handled (rstHdr p)]).guestShut (rstHdr p) =
      ((s.commit p offeredConn [] [.handled (rstHdr p)]).commit p resetConn []
        [.cleared []]).settle p := by
    unfold VirtioVsock.guestShut
    rw [show (s.commit p offeredConn [] [.handled (rstHdr p)]).conn (rstHdr p).dstPort =
      some offeredConn from conn_commit_self ..]
    have hopen : offeredConn.state ≠ .new := by decide
    have hflags : Conn.shutFlags (rstHdr p) = shutdownBoth := if_pos rfl
    have hclears : offeredConn.shutClears (rstHdr p) = [.cleared []] := by
      rw [Conn.shutClears, hflags]
      exact if_pos (by decide)
    have hreset : offeredConn.guestShut (rstHdr p) = resetConn := by rfl
    simp only [if_neg hopen, hclears, hreset]
    rfl
  have hadmits : admits (rstHdr p) = true := by rfl
  have hstep : s.handlePkt (agentPkt p opRst 0 64 0 []) =
      ((s.takeCredit (rstHdr p)).guestShut (rstHdr p)).fillRx := by
    rw [handlePkt, hparse]
    have hop : (rstHdr p).op = opRst := rfl
    have hrst : opRst ≠ opRequest ∧ opRst ≠ opResponse ∧ opRst ≠ opRw := by decide
    simp only [hadmits, if_true, hop, dispatch, hrst.1, hrst.2.1, hrst.2.2, if_false, or_true]
  rw [hstep, hcredit, hshut, settle_reset (conn_commit_self ..)]

/-- A connection the guest turns down is dropped without a word. -/
theorem Waiting.turnedDown (h : Waiting k j s) (hidle : s.pending = [])
    (hc : s.conn p = some { stream := {}, state := .offered }) :
    Waiting k j (s.handlePkt (agentPkt p opRst 0 64 0 [])) ∧
      (s.handlePkt (agentPkt p opRst 0 64 0 [])).pending = [] := by
  have hgone : Waiting k j
      ((((s.commit p offeredConn [] [.handled (rstHdr p)]).commit p resetConn []
      [.cleared []]).commit p resetConn.shutHostWrite [] []).remove p []
      [.ended resetConn.shutHostWrite]) :=
    (((h.commit (by decide) rfl).commit (by decide) rfl).commit (by decide) rfl).remove rfl
  have hnone : ((((s.commit p offeredConn [] [.handled (rstHdr p)]).commit p resetConn []
      [.cleared []]).commit p resetConn.shutHostWrite [] []).remove p []
      [.ended resetConn.shutHostWrite]).pending = [] := by
    simp only [VirtioVsock.commit, VirtioVsock.remove, hidle, List.append_nil]
  rw [handlePkt_rst hc, hgone.fillRx hnone]
  exact ⟨hgone, hnone⟩

theorem Waiting.refused (h : Waiting k j s) (hidle : s.pending = [])
    (hc : s.conn p = some { stream := {}, state := .offered }) (ram : ℕ → UInt8) :
    Waiting k j (s.step ⟨.handlePkt (agentPkt p opRst 0 64 0 []), ram⟩) ∧
      (s.step ⟨.handlePkt (agentPkt p opRst 0 64 0 []), ram⟩).pending = [] := by
  have hstep : s.step ⟨.handlePkt (agentPkt p opRst 0 64 0 []), ram⟩ =
      VirtioVsock.handlePkt { s with mem := { s.mem with bytes := ram } }
        (agentPkt p opRst 0 64 0 []) := by
    rw [step, exec]
  rw [hstep]
  exact (h.withRam ram).turnedDown hidle hc

end VirtioVsock
