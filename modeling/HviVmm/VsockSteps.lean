/-
What the virtio-vsock device can do in one step.

Every call decomposes into small steps: a change to one connection with the
packets it queues and the events it records, the end of a connection, a packet
moved into an RX buffer, or a change that touches none of these.  A step carries
the label of what caused it.  An invariant of the device is an invariant of the
steps, and is then one of every run.

* `FillStep`, `HostStep`, `ArriveStep` — what settling and framing, a bridge call,
  and a guest packet can do to a connection;
* `VirtioVsock.Step` — the same for the device;
* `handlePkt_steps` — a guest packet is one arrival and then steps that are not;
* `run_steps` — a run is a sequence of steps.
-/
import HviVmm.LabelledSteps
import HviVmm.Vsock

open ByteStore VirtioVsock

/-! ### Steps of one connection -/

/-- What settling a connection and framing its backlog do to it, the packets they
queue and the events they record. -/
inductive FillStep (p : UInt32) : Conn → Conn → List Packet → List Event → Prop
  | keep {c : Conn} : FillStep p c c [] []
  | frame {c : Conn} (h : c.framable = true) :
      FillStep p c (c.frame c.frameLen) [rwPkt p (c.backlog.take c.frameLen) c.rxCnt]
        [.framed (c.backlog.take c.frameLen)]
  | shutWrite {c : Conn} (hsend : c.guestSendShut = true) (hto : c.toHost = [])
      (hshut : c.hostWriteShut = false) (hgone : c.hostGone = false) :
      FillStep p c { c with hostWriteShut := true } [] []
  | reset {c : Conn} (hdue : c.tellDue = true) (hgone : c.hostGone = true) :
      FillStep p c { c with resetSent := true } [controlPkt p opRst 0 c.rxCnt] []
  | poll {c : Conn} {b : Bool} {hangups : List Bool} (hdue : c.tellDue = true)
      (hgone : c.hostGone = false) (htold : c.told = 0) (hup : c.hostHungUp = false)
      (hrcv : c.guestRcvShut = false) :
      FillStep p c { c with hostHungUp := b, stream := { c.stream with hangups } } [] []
  | announce {c : Conn} (hdue : c.tellDue = true) (hgone : c.hostGone = false)
      (hnew : c.hostFlags &&& ~~~c.told ≠ 0) :
      FillStep p c { c with told := c.told ||| c.hostFlags }
        [controlPkt p opShutdown (c.told ||| c.hostFlags) c.rxCnt] []

/-- What the calls of the bridge do to a connection. -/
inductive HostStep (p : UInt32) : Conn → Conn → List Packet → List Event → Prop
  | offer {c : Conn} : HostStep p c { c with state := .offered } [requestPkt p] [.offered]
  | refuse {c : Conn} {gate : HostGate} {data : List UInt8} (hrcv : c.guestRcvShut = true)
      (hgate : gate = if c.guestSendShut then c.readerGate else c.readerGate.close) :
      HostStep p c { c with readerGate := gate } [] [.passed data]
  | queue {c : Conn} {data : List UInt8} (hrcv : c.guestRcvShut = false) :
      HostStep p c { c with backlog := c.backlog ++ data } [] [.passed data, .queued data]
  | full {c : Conn} (hlen : hostBacklogMax ≤ c.backlog.length) :
      HostStep p c { c with readerGate := c.readerGate.close } [] []
  | eof {c : Conn} {b : Bool} {hangups : List Bool} :
      HostStep p c { c with hostEof := true, hostHungUp := b, stream := { c.stream with hangups } }
        [] [.eof]
  | hungUp {c : Conn} (hhalf : c.hostHalfOpen = true) :
      HostStep p c { c with hostHungUp := true } [] []
  | gone {c : Conn} (hgone : c.hostGone = false) :
      HostStep p c c.gone
        (if c.goneDue then [controlPkt p opShutdown shutdownRcv c.gone.rxCnt] else [])
        [.dropped c.toHost]
  | flush {c : Conn} {sent rest : List UInt8} {writes : List WriteResult}
      (hto : c.toHost = sent ++ rest) :
      HostStep p c ((c.sentOff sent writes).flushed sent.length)
        (if 0 < sent.length ∧ c.guestSendShut = false then
          [controlPkt p opCreditUpdate 0 (c.rxCnt + UInt32.ofNat sent.length)] else [])
        [.took sent true]
  | failed {c : Conn} {sent rest : List UInt8} {writes : List WriteResult}
      (hto : c.toHost = sent ++ rest) (hrest : rest ≠ []) :
      HostStep p c (c.sentOff sent writes) [] [.took sent false]

/-- What a guest packet with header `h` and payload `body` does to the connection
it is for, once the credit in the header is taken. -/
inductive ArriveStep (p : UInt32) (h : Hdr) (body : List UInt8) :
    Conn → Conn → List Packet → List Event → Prop
  | ignore {c : Conn} (hshut : h.op = opShutdown ∨ h.op = opRst → c.state = .new) :
      ArriveStep p h body c c [] []
  | accept {c : Conn} (hop : h.op = opResponse) (hstate : c.state = .offered) :
      ArriveStep p h body c { c with state := .connected } [] []
  | append {c : Conn} (hop : h.op = opRw) (hstate : c.state = .connected)
      (hsend : c.guestSendShut = false) (hgone : c.hostGone = false)
      (hfit : c.toHost.length + body.length ≤ ourBufAlloc.toNat) :
      ArriveStep p h body c { c with toHost := c.toHost ++ body } [] [.appended body]
  | discard {c : Conn} (hop : h.op = opRw) (hstate : c.state = .connected)
      (hsend : c.guestSendShut = false) (hgone : c.hostGone = true) :
      ArriveStep p h body c { c with rxCnt := c.rxCnt + UInt32.ofNat body.length }
        [controlPkt p opCreditUpdate 0 (c.rxCnt + UInt32.ofNat body.length)] [.discarded body]
  | shut {c : Conn} (hop : h.op = opShutdown ∨ h.op = opRst) (hstate : c.state ≠ .new) :
      ArriveStep p h body c (c.guestShut h) [] (c.shutClears h)
  | answer {c : Conn} (hop : h.op = opCreditRequest) (hstate : c.state = .connected) :
      ArriveStep p h body c c [controlPkt p opCreditUpdate 0 c.rxCnt] []

namespace Conn

/-- Taking credit changes the two credit fields only. -/
theorem takeCredit_eq (c : Conn) (h : Hdr) : ∃ buf fwd,
    c.takeCredit h = { c with peerBufAlloc := buf, peerFwdCnt := fwd } := by
  unfold takeCredit
  split
  · exact ⟨_, _, rfl⟩
  · exact ⟨_, _, rfl⟩

end Conn

namespace VirtioVsock

/-! ### The table of connections -/

section Table

variable (s : VirtioVsock) {p q : UInt32} (c c' : Conn) (pkts pkts' : List Packet)
  (evs evs' : List Event)
variable {acts : List Act}

@[simp] theorem conn_commit_self : (s.commit p c pkts evs).conn p = some c :=
  AList.lookup_insert _

theorem conn_commit_ne (h : q ≠ p) : (s.commit p c pkts evs).conn q = s.conn q :=
  AList.lookup_insert_ne h

@[simp] theorem conn_remove_self : (s.remove p pkts evs).conn p = none := AList.lookup_erase _ _

theorem conn_remove_ne (h : q ≠ p) : (s.remove p pkts evs).conn q = s.conn q :=
  AList.lookup_erase_ne h

theorem record_record (h : UInt32 → List Event) :
    record (record h p evs) p evs' = record h p (evs ++ evs') := by
  simp [record]

@[simp] theorem record_self (h : UInt32 → List Event) : record h p evs p = h p ++ evs := by
  simp [record]

theorem record_ne (h : UInt32 → List Event) (hq : q ≠ p) : record h p evs q = h q := by
  simp [record, hq]

theorem note_note {acts' : List Act} (log : UInt32 → List Act) :
    note (note log p acts) p acts' = note log p (acts ++ acts') := by
  simp [note]

@[simp] theorem note_self (log : UInt32 → List Act) : note log p acts p = log p ++ acts := by
  simp [note]

theorem note_ne (log : UInt32 → List Act) (hq : q ≠ p) : note log p acts q = log q := by
  simp [note, hq]

/-- Two changes are one, when the second has no events. -/
theorem commit_commit : (s.commit p c pkts evs).commit p c' pkts' [] =
    s.commit p c' (pkts ++ pkts') evs := by
  simp [commit, record_record, note_note, noted]

/-- Two changes are one, when the first has no packets. -/
theorem commit_events : (s.commit p c [] evs).commit p c' pkts' evs' =
    s.commit p c' pkts' (evs ++ evs') := by
  simp [commit, record_record, note_note, noted]

theorem erase_insert (conns : AList fun _ : UInt32 => Conn) :
    (conns.insert p c).erase p = conns.erase p := by
  refine AList.ext ?_
  show List.kerase p (List.kinsert p c conns.entries) = List.kerase p conns.entries
  exact List.kerase_cons_eq rfl

theorem commit_remove : (s.commit p c [] evs).remove p pkts' evs' =
    s.remove p pkts' (evs ++ evs') := by
  simp [commit, remove, record_record, note_note, noted, erase_insert]

end Table

/-! ### Steps of the device -/

/-- What caused a step. -/
inductive Label where
  /-- A bridge call for this port. -/
  | host (port : UInt32)
  /-- A guest packet. -/
  | arrive (pkt : Packet)
  /-- Framing, settling and delivery, or nothing that concerns a connection. -/
  | fill
  | register
  | wipe
  deriving DecidableEq

/-- The guest's buffer `segs` can be written. -/
def Writable (mem : GuestRam) (segs : List Seg) : Prop :=
  ∀ seg ∈ segs, mem.contains seg.1 seg.2.toNat = true

instance (mem : GuestRam) (segs : List Seg) : Decidable (Writable mem segs) :=
  List.decidableBAll _ segs

/-- Every queue that is ready has its rings in guest RAM. -/
def RingsOk (s : VirtioVsock) : Prop := s.transport.ReadyOk s.mem

section Rings

variable {s : VirtioVsock} {mem : GuestRam}

theorem RingsOk.inRegions (h : RingsOk s) (hreg : mem.regions = s.mem.regions) :
    s.transport.ReadyOk mem :=
  fun i => (h i).congr hreg

/-- Queues with the same rings, in RAM with the same regions. -/
theorem RingsOk.of_queue (h : RingsOk s) {t : Transport 3} {i : Fin 3} {last : UInt16}
    (ht : t.queues = (s.transport.setQueue i ((s.transport.queues i).setLastAvail last)).queues)
    (hreg : mem.regions = s.mem.regions) : t.ReadyOk mem := by
  intro j
  have hset : (s.transport.setQueue i ((s.transport.queues i).setLastAvail last)).ReadyOk s.mem :=
    Transport.setQueue_readyOk h (Queue.readyOk_setLastAvail (h i) last)
  rw [ht]
  exact (hset j).congr hreg

end Rings

/-- One step of the device. -/
inductive Step : Label → VirtioVsock → VirtioVsock → Prop
  | host {s : VirtioVsock} {p : UInt32} {c c' : Conn} {pkts : List Packet} {evs : List Event}
      (hc : s.conn p = some c) (h : HostStep p c c' pkts evs) :
      Step (.host p) s (s.commit p c' pkts evs)
  | arrive {s : VirtioVsock} {pkt : Packet} {hdr : Hdr} {c c' : Conn} {pkts : List Packet}
      {evs : List Event} (hhdr : Hdr.parse pkt = some hdr) (hadm : admits hdr = true)
      (hop : hdr.op ≠ opRequest) (hc : s.conn hdr.dstPort = some c)
      (h : ArriveStep hdr.dstPort hdr (rwBody hdr pkt) (c.takeCredit hdr) c' pkts evs) :
      Step (.arrive pkt) s (s.commit hdr.dstPort c' pkts (.handled hdr :: evs))
  | overrun {s : VirtioVsock} {pkt : Packet} {hdr : Hdr} {c₀ c : Conn}
      (hhdr : Hdr.parse pkt = some hdr) (hadm : admits hdr = true) (hop : hdr.op = opRw)
      (hc : s.conn hdr.dstPort = some c₀) (hcredit : c = c₀.takeCredit hdr)
      (hstate : c.state = .connected) (hsend : c.guestSendShut = false)
      (hgone : c.hostGone = false)
      (hfit : ourBufAlloc.toNat < c.toHost.length + (rwBody hdr pkt).length) :
      Step (.arrive pkt) s
        (s.remove hdr.dstPort [controlPkt hdr.dstPort opRst 0 c.rxCnt] [.handled hdr, .overrun])
  | refuse {s : VirtioVsock} {pkt : Packet} {hdr : Hdr} (hhdr : Hdr.parse pkt = some hdr)
      (hadm : admits hdr = true) (hop : hdr.op = opRequest) :
      Step (.arrive pkt) s
        { s with
          pending := s.pending ++ [refusalPkt hdr], queued := s.queued ++ [refusalPkt hdr]
          asked := s.asked ++ [hdr] }
  | fill {s : VirtioVsock} {p : UInt32} {c c' : Conn} {pkts : List Packet} {evs : List Event}
      (hc : s.conn p = some c) (h : FillStep p c c' pkts evs) :
      Step .fill s (s.commit p c' pkts evs)
  | ended {s : VirtioVsock} {p : UInt32} {c : Conn} (hc : s.conn p = some c)
      (h : c.finished = true) : Step .fill s (s.remove p (c.farewell p) [.ended c])
  | deliver {s : VirtioVsock} {pkt : Packet} {rest : List Packet} {cap : ℕ} {mem : GuestRam}
      {t : Transport 3} (hpend : s.pending = pkt :: rest) (hcap : hdrLen ≤ cap)
      (hreg : mem.regions = s.mem.regions) (hrings : s.RingsOk → t.ReadyOk mem) :
      Step .fill s
        { s with
          pending := (cutFor cap pkt rest).2, mem, transport := t
          delivered := s.delivered ++ [(cutFor cap pkt rest).1] }
  | lose {s : VirtioVsock} {pkt : Packet} {rest : List Packet} {cap : ℕ} {mem : GuestRam}
      {segs : List Seg} (hpend : s.pending = pkt :: rest) (hcap : hdrLen ≤ cap)
      (hreg : mem.regions = s.mem.regions) (hsegs : segs ∈ s.walked)
      (hbad : ¬ Writable s.mem segs) :
      Step .fill s { s with pending := (cutFor cap pkt rest).2, mem }
  | quiet {s : VirtioVsock} {mem : GuestRam} {t : Transport 3} {turn : UInt32}
      {walked : List (List Seg)} (hreg : mem.regions = s.mem.regions)
      (hwalk : s.walked <+: walked) (hrings : s.RingsOk → t.ReadyOk mem) :
      Step .fill s { s with mem, transport := t, nextTurn := turn, walked }
  | register {s : VirtioVsock} {stream : HostStream} (h : stream.nonblocking = true) :
      Step .register s (s.addConn stream).2
  | reset {s : VirtioVsock} : Step .wipe s s.reset
  | dropConns {s : VirtioVsock} : Step .wipe s s.dropConns

/-- A sequence of steps whose labels satisfy `A`. -/
abbrev Steps (A : Label → Prop) : VirtioVsock → VirtioVsock → Prop := LabelledSteps.Steps Step A

/-- The steps of filling RX buffers. -/
def IsFill (l : Label) : Prop := l = .fill

/-- The steps of a bridge call for `p`, and of filling. -/
def IsHost (p : UInt32) (l : Label) : Prop := l = .host p ∨ l = .fill

theorem isFill_isHost {p : UInt32} : ∀ l, IsFill l → IsHost p l := fun _ h => .inr h

/-! ### Every call is a sequence of steps -/

section Calls

variable {s s' : VirtioVsock}
variable {p : UInt32} {c : Conn} {pkt : Packet}

theorem shutHostWrite_step (p : UInt32) (c : Conn) : FillStep p c c.shutHostWrite [] [] := by
  unfold Conn.shutHostWrite
  split
  · next h =>
    simp only [Conn.writeDue, Bool.and_eq_true, Bool.not_eq_true', List.isEmpty_iff] at h
    exact .shutWrite h.1.1.1 h.1.1.2 h.1.2 h.2
  · exact .keep

theorem pollHost_step (hdue : c.tellDue = true) (hgone : c.hostGone = false) :
    FillStep p c c.pollHost [] [] := by
  unfold Conn.pollHost
  split
  · next h =>
    simp only [Conn.pollDue, Bool.and_eq_true, Bool.not_eq_true', beq_iff_eq] at h
    exact .poll hdue hgone h.1.1 h.1.2 h.2
  · exact .keep

theorem announce_step (hdue : c.tellDue = true) (hgone : c.hostGone = false) :
    FillStep p c (c.announce p).1 (c.announce p).2 [] := by
  unfold Conn.announce
  split
  · next h => exact .announce hdue hgone (by simpa using h)
  · exact .keep

theorem pollHost_due (c : Conn) :
    c.pollHost.tellDue = c.tellDue ∧ c.pollHost.hostGone = c.hostGone := by
  unfold Conn.pollHost
  split <;> exact ⟨rfl, rfl⟩

/-- A step that settling takes on a connection it has already stored. -/
theorem Steps.fill_commit {c' : Conn} {pkts pkts' : List Packet} {evs : List Event}
    (h : Steps IsFill s (s.commit p c pkts evs)) (hstep : FillStep p c c' pkts' []) :
    Steps IsFill s (s.commit p c' (pkts ++ pkts') evs) := by
  rw [← commit_commit]
  exact h.trans (.single rfl (.fill (conn_commit_self ..) hstep))

theorem tellGuest_steps (h : Steps IsFill s (s.commit p c [] [])) :
    Steps IsFill s (s.commit p (c.tellGuest p).1 (c.tellGuest p).2 []) := by
  unfold Conn.tellGuest
  split
  · next hdue =>
    split
    · next hgone => exact h.fill_commit (.reset hdue hgone)
    · next hgone =>
      rw [Bool.not_eq_true] at hgone
      obtain ⟨hdue', hgone'⟩ := pollHost_due c
      exact (h.fill_commit (pollHost_step hdue hgone)).fill_commit
        (announce_step (hdue'.trans hdue) (hgone'.trans hgone))
  · exact h

theorem settle_steps (s : VirtioVsock) (p : UInt32) : Steps IsFill s (s.settle p) := by
  unfold settle
  cases hc : s.conn p with
  | none => exact .refl s
  | some c =>
    have htell := tellGuest_steps (.single rfl (.fill hc (shutHostWrite_step p c)))
    simp only
    generalize c.shutHostWrite.tellGuest p = told at htell ⊢
    split
    · next hfin => exact htell.trans (.single rfl (.ended (conn_commit_self ..) hfin))
    · exact htell

/-! ### Filling RX buffers -/

theorem frameTurn_spec (h : s.frameTurn = some p) : ∃ c, s.conn p = some c ∧ c.framable = true := by
  have hmem := List.argmin_mem (Option.mem_def.mpr h)
  simp only [List.mem_map, List.mem_filter] at hmem
  obtain ⟨e, ⟨he, hf⟩, rfl⟩ := hmem
  exact ⟨e.2, AList.mem_lookup_iff.mpr he, hf⟩

/-- What framing does: the turn moves on, one packet is framed for a connection
that may be served, and the connection is settled. -/
theorem frameBacklog_spec (h : s.frameBacklog = some s') :
    ∃ p c, s.conn p = some c ∧ c.framable = true ∧
      s' = (({ s with nextTurn := p + 1 }).commit p (c.frame c.frameLen)
        [rwPkt p (c.backlog.take c.frameLen) c.rxCnt]
        [.framed (c.backlog.take c.frameLen)]).settle p := by
  unfold frameBacklog at h
  cases hturn : s.frameTurn with
  | none => simp [hturn] at h
  | some p =>
    obtain ⟨c, hc, hf⟩ := frameTurn_spec hturn
    simp only [hturn, hc, Option.some.injEq] at h
    exact ⟨p, c, hc, hf, h.symm⟩

theorem frameBacklog_steps (h : s.frameBacklog = some s') : Steps IsFill s s' := by
  obtain ⟨p, c, hc, hf, rfl⟩ := frameBacklog_spec h
  have hturn : Steps IsFill s { s with nextTurn := p + 1 } :=
    .single rfl (.quiet rfl List.prefix_rfl id)
  have hframe : Step .fill { s with nextTurn := p + 1 } _ := .fill hc (.frame hf)
  exact (hturn.trans (.single rfl hframe)).trans (settle_steps _ p)

theorem refill_steps (h : s.refill = some s') : Steps IsFill s s' := by
  unfold refill at h
  split at h
  · exact frameBacklog_steps h
  · cases h
    exact .refl s

/-- A packet that is too long for the buffer, cut. -/
theorem splitPending_eq {cap : ℕ} (hcap : hdrLen ≤ cap) (hlong : cap < pkt.length) : ∃ h : Hdr,
    splitPending pkt cap =
      ({ h with len := UInt32.ofNat (cap - hdrLen) }.toBytes ++ (pkt.take cap).drop hdrLen,
        { h with len := UInt32.ofNat (pkt.length - cap) }.toBytes ++ pkt.drop cap) := by
  obtain ⟨h, hparse⟩ : ∃ h, Hdr.parse pkt = some h := by
    have hlen : ¬ pkt.length < hdrLen := by omega
    rw [Hdr.parse, if_neg hlen]
    exact ⟨_, rfl⟩
  have hkeep : hdrLen + (cap - hdrLen) = cap := by omega
  have hleft : pkt.length - hdrLen - (cap - hdrLen) = pkt.length - cap := by omega
  refine ⟨h, ?_⟩
  simp only [splitPending, hparse, hkeep, hleft]

theorem length_cutFor_eq {cap : ℕ} (hcap : hdrLen ≤ cap) (rest : List Packet) :
    (cutFor cap pkt rest).1.length = min pkt.length cap := by
  unfold cutFor
  split
  · next hlong =>
    obtain ⟨h, heq⟩ := splitPending_eq hcap hlong
    simp only [heq, List.length_append, Hdr.length_toBytes, List.length_drop, List.length_take]
    omega
  · next hshort => exact (Nat.min_eq_left (Nat.le_of_not_lt hshort)).symm

theorem length_cutFor {cap : ℕ} {rest : List Packet} (hcap : hdrLen ≤ cap) :
    (cutFor cap pkt rest).1.length ≤ cap :=
  (length_cutFor_eq hcap rest).trans_le (Nat.min_le_right _ _)

/-- A packet write keeps the regions, fails only at a buffer outside RAM, and leaves the
packet in the buffers otherwise. -/
theorem writePkt_spec (mem : GuestRam) (segs : List Seg) (rest stored : List UInt8) :
    (writePkt mem segs rest stored).2.regions = mem.regions ∧
      ((writePkt mem segs rest stored).1 = none → ¬ Writable mem segs) ∧
      (rest.length ≤ totalLen segs → ∀ got, (writePkt mem segs rest stored).1 = some got →
        got = stored ++ rest) := by
  induction segs generalizing mem rest stored with
  | nil =>
    refine ⟨rfl, fun h => (by cases h), fun hfit got h => ?_⟩
    rw [List.eq_nil_of_length_eq_zero (Nat.le_zero.mp hfit), List.append_nil]
    exact (Option.some.inj h).symm
  | cons seg segs ih =>
    obtain ⟨addr, len⟩ := seg
    rw [writePkt]
    split
    · next hrest =>
      refine ⟨rfl, fun h => (by cases h), fun _ got h => ?_⟩
      rw [hrest, List.append_nil]
      exact (Option.some.inj h).symm
    · simp only
      split
      · next hw =>
        refine ⟨rfl, fun _ hok => ?_, fun _ got h => by cases h⟩
        have hin : mem.contains addr (min rest.length len.toNat) = true :=
          GuestRam.contains_mono (hok (addr, len) (by simp)) (Nat.min_le_right _ _)
        rw [GuestRam.write_eq (by simpa using hin)] at hw
        cases hw
      · next mem' hw =>
        obtain ⟨-, hreg, hbytes⟩ := GuestRam.write_bytes hw
        obtain ⟨hreg', hfail, hgot⟩ := ih mem' (rest.drop (min rest.length len.toNat))
          (stored ++ peek mem'.bytes addr.toNat (min rest.length len.toNat))
        refine ⟨hreg'.trans hreg, fun h hok => hfail h fun seg hseg => ?_, fun hfit got h => ?_⟩
        · rw [GuestRam.contains_congr hreg]
          exact hok seg (List.mem_cons_of_mem _ hseg)
        · -- what was stored is read back
          have hback : peek mem'.bytes addr.toNat (min rest.length len.toNat) =
              rest.take (min rest.length len.toNat) := by
            have := peek_poke_same mem.bytes addr.toNat (rest.take (min rest.length len.toNat))
            rwa [← hbytes, List.length_take, Nat.min_eq_left (Nat.min_le_left _ _)] at this
          have htotal : totalLen ((addr, len) :: segs) = len.toNat + totalLen segs := rfl
          rw [hgot (by rw [List.length_drop]; omega) got h, hback, List.append_assoc,
            List.take_append_drop]

/-- One packet goes out, or is lost to a buffer outside RAM. -/
theorem place_step {head : UInt16} {segs : List Seg} {rest : List Packet}
    (hpend : s.pending = pkt :: rest) (hcap : hdrLen ≤ totalLen segs) (hsegs : segs ∈ s.walked) :
    Step .fill s (s.place head segs (cutFor (totalLen segs) pkt rest)).2 := by
  obtain ⟨hreg, hfail, hgot⟩ := writePkt_spec s.mem segs (cutFor (totalLen segs) pkt rest).1 []
  have hgot := hgot (length_cutFor hcap)
  unfold place
  generalize writePkt s.mem segs (cutFor (totalLen segs) pkt rest).1 [] = w at hreg hfail hgot ⊢
  cases hw : w.1 with
  | none =>
    simp only [hw]
    exact .lose hpend hcap hreg hsegs (hfail hw)
  | some stored =>
    have hstored : stored = (cutFor (totalLen segs) pkt rest).1 := hgot stored hw
    subst hstored
    simp only [hw]
    have hreg' := (s.rx.pushUsed_regions w.2 head
      (UInt32.ofNat (cutFor (totalLen segs) pkt rest).1.length)).trans hreg
    exact .deliver hpend hcap hreg' fun h => h.of_queue rfl hreg'

theorem deliver_steps (s : VirtioVsock) : Steps IsFill s s.deliver.2 := by
  unfold deliver
  split
  · exact .refl s
  · split
    · exact .refl s
    · next head _ segs _ =>
      have hwalk : Steps IsFill s { s with walked := s.walked ++ [segs] } :=
        .single rfl (.quiet rfl (List.prefix_append _ _) id)
      simp only
      split
      · exact hwalk
      · next pkt rest hpend =>
        split
        · exact hwalk
        · next hcap =>
          rw [not_or, Nat.not_lt] at hcap
          exact hwalk.trans (.single rfl (place_step hpend hcap.1 (by simp)))

/-- **The loop rule**: what framing and delivery keep, filling keeps. -/
theorem fillLoop_inv {P : VirtioVsock → Prop} (hframe : ∀ {s s'}, s.refill = some s' → P s → P s')
    (hdel : ∀ {s}, P s → P s.deliver.2) (fuel : ℕ) (hs : P s) : P (fillLoop fuel s) := by
  induction fuel generalizing s with
  | zero => exact hs
  | succ fuel ih =>
    rw [fillLoop]
    split
    · exact hs
    · next s' h =>
      simp only
      split
      · exact ih (hdel (hframe h hs))
      · exact hdel (hframe h hs)

theorem fillRx_inv {P : VirtioVsock → Prop} (hframe : ∀ {s s'}, s.refill = some s' → P s → P s')
    (hdel : ∀ {s}, P s → P s.deliver.2) (hs : P s) : P s.fillRx := by
  unfold fillRx
  split
  · exact fillLoop_inv hframe hdel _ hs
  · exact hs

theorem fillRx_steps (s : VirtioVsock) : Steps IsFill s s.fillRx :=
  fillRx_inv (P := Steps IsFill s) (fun h hs => hs.trans (refill_steps h))
    (fun hs => hs.trans (deliver_steps _)) (.refl s)

theorem settle_fill_steps {l : Label} (hl : IsHost p l) (h : Step l s s') :
    Steps (IsHost p) s (s'.settle p).fillRx :=
  LabelledSteps.Steps.trans (.single hl h)
    (((settle_steps s' p).trans (fillRx_steps _)).mono isFill_isHost)

/-! ### Bridge calls -/

theorem connect_steps (s : VirtioVsock) (p : UInt32) : Steps (IsHost p) s (s.connect p) := by
  unfold connect
  cases hc : s.conn p with
  | none => exact .refl s
  | some c =>
    exact LabelledSteps.Steps.trans (.single (.inl rfl) (.host hc .offer))
      ((fillRx_steps _).mono isFill_isHost)

theorem hostData_steps (s : VirtioVsock) (p : UInt32) (data : List UInt8) :
    Steps (IsHost p) s (s.hostData p data).2 := by
  unfold hostData
  cases hc : s.conn p with
  | none => exact .refl s
  | some c =>
    simp only
    split
    · next hrcv =>
      split
      · next hsend =>
        have hstep : HostStep p c c [] [.passed data] := .refuse hrcv (by simp [hsend])
        exact .single (.inl rfl) (.host hc hstep)
      · next hsend => exact .single (.inl rfl) (.host hc (.refuse hrcv (by simp [hsend])))
    · next hrcv =>
      rw [Bool.not_eq_true] at hrcv
      have hqueue : HostStep p c { c with backlog := c.backlog ++ data } []
        [.passed data, .queued data] := .queue hrcv
      have hfill := LabelledSteps.Steps.trans (.single (.inl rfl) (.host hc hqueue))
        ((fillRx_steps _).mono (isFill_isHost (p := p)))
      generalize VirtioVsock.fillRx _ = s₁ at hfill ⊢
      cases hc₁ : s₁.conn p with
      | none => exact hfill
      | some c₁ =>
        simp only
        split
        · exact hfill
        · next hlen => exact hfill.trans (.single (.inl rfl) (.host hc₁ (.full (by omega))))

theorem hostEof_steps (s : VirtioVsock) (p : UInt32) : Steps (IsHost p) s (s.hostEof p).2 := by
  unfold hostEof
  cases hc : s.conn p with
  | none => exact .refl s
  | some c => exact settle_fill_steps (.inl rfl) (.host hc .eof)

theorem hostHungUp_steps (s : VirtioVsock) (p : UInt32) : Steps (IsHost p) s (s.hostHungUp p) := by
  unfold hostHungUp
  cases hc : s.conn p with
  | none => exact .refl s
  | some c =>
    simp only
    split
    · next h => exact settle_fill_steps (.inl rfl) (.host hc (.hungUp h))
    · exact .refl s

theorem hostGone_steps (s : VirtioVsock) (p : UInt32) : Steps (IsHost p) s (s.hostGone p) := by
  unfold hostGone
  cases hc : s.conn p with
  | none => exact .refl s
  | some c =>
    simp only
    split
    · exact .refl s
    · next h => exact settle_fill_steps (.inl rfl) (.host hc (.gone (by simpa using h)))

/-- The socket takes a front part of what it is offered, all but a rest when a send
fails. -/
theorem send_spec (writes : List WriteResult) (toHost : List UInt8) :
    ∃ rest, toHost = (Conn.send writes toHost).1 ++ rest ∧
      ((Conn.send writes toHost).2.2 = true → rest ≠ []) := by
  fun_induction Conn.send writes toHost with
  | case1 => exact ⟨[], rfl, fun h => by cases h⟩
  | case2 b bs => exact ⟨_, rfl, fun h => by cases h⟩
  | case3 b bs => exact ⟨_, rfl, fun h => by cases h⟩
  | case4 b bs n ws hn r ih =>
    obtain ⟨rest, hrest, hfail⟩ := ih
    refine ⟨rest, ?_, hfail⟩
    rw [List.append_assoc, ← hrest, List.take_append_drop]
  | case5 b bs ws ih => exact ih
  | case6 b bs => exact ⟨_, rfl, fun h => by cases h⟩
  | case7 b bs => exact ⟨_, rfl, fun _ => by simp⟩

theorem flushToHost_steps (s : VirtioVsock) (p : UInt32) :
    Steps (IsHost p) s (s.flushToHost p).2 := by
  unfold flushToHost
  cases hc : s.conn p with
  | none => exact .refl s
  | some c =>
    obtain ⟨rest, hto, hfail⟩ := send_spec c.stream.writes c.toHost
    simp only
    generalize Conn.send c.stream.writes c.toHost = r at hto hfail ⊢
    split
    · next hf =>
      exact LabelledSteps.Steps.trans (.single (.inl rfl) (.host hc (.failed hto (hfail hf))))
        (hostGone_steps _ p)
    · exact settle_fill_steps (.inl rfl) (.host hc (.flush hto))

/-! ### Guest packets -/

/-- The steps that may follow the arrival of a packet. -/
def Follows (pkt : Packet) (l : Label) : Prop :=
  l = .fill ∨ ∃ hdr, Hdr.parse pkt = some hdr ∧ l = .host hdr.dstPort

/-- A packet arrives, or concerns no connection, and what follows is not an
arrival. -/
def Handled (pkt : Packet) (s s' : VirtioVsock) : Prop :=
  ∃ s₁, (s₁ = s ∨ Step (.arrive pkt) s s₁) ∧ Steps (Follows pkt) s₁ s'

theorem handled_self (pkt : Packet) (s : VirtioVsock) : Handled pkt s s :=
  ⟨s, .inl rfl, .refl s⟩

theorem handled_fill {s₁ : VirtioVsock} (h : s₁ = s ∨ Step (.arrive pkt) s s₁) :
    Handled pkt s s₁.fillRx :=
  ⟨s₁, h, (fillRx_steps s₁).mono fun _ => .inl⟩

section Arrival

variable {pkt : Packet} {h : Hdr} {c : Conn} (hhdr : Hdr.parse pkt = some h)
  (hadm : admits h = true) (hne : h.op ≠ opRequest) (hc : s.conn h.dstPort = some c)
include hhdr hadm hne hc

/-- A change to the connection right after its credit was taken is one arrival. -/
theorem arrive_step {c' : Conn} {pkts : List Packet} {evs : List Event}
    (harr : ArriveStep h.dstPort h (rwBody h pkt) (c.takeCredit h) c' pkts evs) :
    Step (.arrive pkt) s
      ((s.commit h.dstPort (c.takeCredit h) [] [.handled h]).commit h.dstPort c' pkts evs) := by
  rw [commit_events]
  exact .arrive hhdr hadm hne hc harr

theorem credit_step (hshut : h.op = opShutdown ∨ h.op = opRst → (c.takeCredit h).state = .new) :
    Step (.arrive pkt) s (s.commit h.dstPort (c.takeCredit h) [] [.handled h]) :=
  .arrive hhdr hadm hne hc (.ignore hshut)

theorem accept_step (hop : h.op = opResponse) :
    Step (.arrive pkt) s
      ((s.commit h.dstPort (c.takeCredit h) [] [.handled h]).accept h.dstPort) := by
  unfold accept
  simp only [conn_commit_self]
  split
  · next hstate => exact arrive_step hhdr hadm hne hc (.accept hop hstate)
  · exact credit_step hhdr hadm hne hc (by simp [hop, opResponse, opShutdown, opRst])

theorem relay_handled (hop : h.op = opRw) :
    Handled pkt s ((s.commit h.dstPort (c.takeCredit h) [] [.handled h]).relay h.dstPort
      (rwBody h pkt)) := by
  unfold relay
  simp only [conn_commit_self]
  split
  · next hopen =>
    split
    · next hgone =>
      exact handled_fill (.inr (arrive_step hhdr hadm hne hc (.discard hop hopen.1 hopen.2 hgone)))
    · next hgone =>
      rw [Bool.not_eq_true] at hgone
      split
      · next hfit =>
        refine handled_fill (.inr ?_)
        rw [commit_remove]
        exact .overrun hhdr hadm hop hc rfl hopen.1 hopen.2 hgone hfit
      · next hfit =>
        refine ⟨_, .inr (arrive_step hhdr hadm hne hc
          (.append hop hopen.1 hopen.2 hgone (by omega))), ?_⟩
        refine LabelledSteps.Steps.trans ((flushToHost_steps _ h.dstPort).mono ?_)
          ((fillRx_steps _).mono fun _ => .inl)
        rintro l (rfl | rfl)
        · exact .inr ⟨h, hhdr, rfl⟩
        · exact .inl rfl
  · refine ⟨_, .inr (credit_step hhdr hadm hne hc ?_), .refl _⟩
    simp [hop, opRw, opShutdown, opRst]

theorem guestShut_handled (hop : h.op = opShutdown ∨ h.op = opRst) :
    Handled pkt s ((s.commit h.dstPort (c.takeCredit h) [] [.handled h]).guestShut h).fillRx := by
  unfold guestShut
  simp only [conn_commit_self]
  split
  · next hstate => exact handled_fill (.inr (credit_step hhdr hadm hne hc fun _ => hstate))
  · next hstate =>
    refine ⟨_, .inr (arrive_step hhdr hadm hne hc (.shut hop hstate)), ?_⟩
    exact ((settle_steps _ h.dstPort).trans (fillRx_steps _)).mono fun _ => .inl

theorem answerCredit_step (hop : h.op = opCreditRequest) :
    Step (.arrive pkt) s
      ((s.commit h.dstPort (c.takeCredit h) [] [.handled h]).answerCredit h.dstPort) := by
  unfold answerCredit
  simp only [conn_commit_self]
  split
  · next hstate => exact arrive_step hhdr hadm hne hc (.answer hop hstate)
  · exact credit_step hhdr hadm hne hc (by simp [hop, opCreditRequest, opShutdown, opRst])

end Arrival

/-- A packet for no connection lets RX buffers fill and does nothing else. -/
theorem dispatch_none {h : Hdr} (hne : h.op ≠ opRequest) (hc : s.conn h.dstPort = none)
    (pkt : Packet) : s.dispatch h pkt = s ∨ s.dispatch h pkt = s.fillRx := by
  unfold dispatch accept relay guestShut answerCredit
  simp only [hc, hne, if_false]
  split
  · exact .inr rfl
  · split
    · exact .inl rfl
    · simp

/-- **A guest packet is at most one arrival**, followed by steps that are not. -/
theorem handlePkt_steps (s : VirtioVsock) (pkt : Packet) : Handled pkt s (s.handlePkt pkt) := by
  unfold handlePkt
  split
  · exact handled_self pkt s
  · next h hhdr =>
    split
    · next hadm =>
      split
      · next hop =>
        have hdisp : { s with asked := s.asked ++ [h] }.dispatch h pkt =
            { s with
              pending := s.pending ++ [refusalPkt h], queued := s.queued ++ [refusalPkt h]
              asked := s.asked ++ [h] }.fillRx := by
          unfold dispatch
          simp [hop, opRequest, opResponse, opRw, opShutdown, opRst]
        rw [hdisp]
        exact handled_fill (.inr (.refuse hhdr hadm hop))
      · next hne =>
        unfold takeCredit
        cases hc : s.conn h.dstPort with
        | none =>
          rcases dispatch_none hne hc pkt with hd | hd
          · rw [hd]
            exact handled_self pkt s
          · rw [hd]
            exact handled_fill (.inl rfl)
        | some c =>
          simp only
          unfold dispatch
          split
          · next hop => exact handled_fill (.inr (accept_step hhdr hadm hne hc hop))
          · split
            · next hop => exact relay_handled hhdr hadm hne hc hop
            · split
              · next hop => exact guestShut_handled hhdr hadm hne hc hop
              · next hshut =>
                split
                · next hop => exact handled_fill (.inr (answerCredit_step hhdr hadm hne hc hop))
                · exact handled_fill (.inr (credit_step hhdr hadm hne hc (absurd · hshut)))
    · exact handled_self pkt s

/-! ### Runs -/

/-- Any step. -/
def AnyLabel (_ : Label) : Prop := True

/-- Any step that registers no connection. -/
def NoRegister (l : Label) : Prop := l ≠ .register

theorem Steps.any {A : Label → Prop} (h : Steps A s s') : Steps AnyLabel s s' :=
  h.mono fun _ _ => trivial

theorem isHost_noRegister : ∀ l, IsHost p l → NoRegister l := by
  rintro l (rfl | rfl)
  · exact Label.noConfusion
  · exact Label.noConfusion

theorem Handled.steps (h : Handled pkt s s') : Steps NoRegister s s' := by
  obtain ⟨s₁, h₁, hrest⟩ := h
  have hrest' : Steps NoRegister s₁ s' := hrest.mono fun l hl => by
    rcases hl with rfl | ⟨hdr, -, rfl⟩
    · exact Label.noConfusion
    · exact Label.noConfusion
  rcases h₁ with rfl | h₁
  · exact hrest'
  · exact LabelledSteps.Steps.trans (.single Label.noConfusion h₁) hrest'

theorem serveTx_steps (n : ℕ) (last : UInt16) (s : VirtioVsock) :
    Steps NoRegister s (serveTx n last s).2 := by
  induction n generalizing last s with
  | zero => exact .refl s
  | succ n ih =>
    rw [serveTx]
    split
    · exact .refl s
    · split
      · exact .refl s
      · next head _ =>
        have hcomplete : ∀ s, Steps NoRegister s (s.completeTx head) := fun s =>
          .single Label.noConfusion (.quiet (Queue.pushUsed_regions _ _ _ _) List.prefix_rfl
            fun h => h.inRegions (Queue.pushUsed_regions _ _ _ _))
        cases s.readTx head with
        | none => exact (hcomplete s).trans (ih _ _)
        | some pkt => exact (handlePkt_steps s pkt).steps.trans ((hcomplete _).trans (ih _ _))

theorem processTx_steps (s : VirtioVsock) : Steps NoRegister s s.processTx := by
  unfold processTx
  split
  · split
    · exact .refl s
    · exact (serveTx_steps _ _ s).trans
        (.single Label.noConfusion (.quiet rfl List.prefix_rfl fun h => h.of_queue rfl rfl))
  · exact .refl s

theorem mmioWrite_steps (s : VirtioVsock) (w : UInt64 × UInt64) :
    Steps NoRegister s (s.mmioWrite w) := by
  unfold mmioWrite
  simp only
  split
  · exact .refl s
  · split
    · exact processTx_steps s
    · split
      · exact (fillRx_steps s).mono fun l hl => hl ▸ Label.noConfusion
      · exact .refl s
  · split
    · exact .single Label.noConfusion .reset
    · exact .single Label.noConfusion
        (.quiet rfl List.prefix_rfl fun h => Transport.writeReg_readyOk h _ _ _)

theorem exec_noRegister (s : VirtioVsock) {op : Op} (h : ∀ stream, op ≠ .addConn stream) :
    Steps NoRegister s (s.exec op) := by
  cases op with
  | addConn stream => exact absurd rfl (h stream)
  | connect p => exact (connect_steps s p).mono isHost_noRegister
  | hostData p data => exact (hostData_steps s p data).mono isHost_noRegister
  | hostEof p => exact (hostEof_steps s p).mono isHost_noRegister
  | hostHungUp p => exact (hostHungUp_steps s p).mono isHost_noRegister
  | hostGone p => exact (hostGone_steps s p).mono isHost_noRegister
  | flushToHost p => exact (flushToHost_steps s p).mono isHost_noRegister
  | handlePkt pkt => exact (handlePkt_steps s pkt).steps
  | mmioWrite w => exact mmioWrite_steps s w
  | dropConns => exact .single Label.noConfusion .dropConns

theorem addConn_steps (s : VirtioVsock) (stream : HostStream) :
    Steps AnyLabel s (s.addConn stream).2 := by
  by_cases h : stream.nonblocking = true
  · exact .single trivial (.register h)
  · rw [addConn, if_neg h]
    exact .refl s

theorem exec_steps (s : VirtioVsock) (op : Op) : Steps AnyLabel s (s.exec op) := by
  cases op with
  | addConn stream => exact addConn_steps s stream
  | _ => exact (exec_noRegister s (by simp)).any

theorem ram_step (s : VirtioVsock) (ram : ℕ → UInt8) :
    Step .fill s { s with mem := { s.mem with bytes := ram } } :=
  .quiet rfl List.prefix_rfl fun h => h.inRegions rfl

theorem step_noRegister (s : VirtioVsock) {call : Call}
    (h : ∀ stream, call.op ≠ .addConn stream) : Steps NoRegister s (s.step call) :=
  LabelledSteps.Steps.trans (.single Label.noConfusion (ram_step s call.ram)) (exec_noRegister _ h)

theorem step_steps (s : VirtioVsock) (call : Call) : Steps AnyLabel s (s.step call) :=
  LabelledSteps.Steps.trans (.single trivial (ram_step s call.ram)) (exec_steps _ call.op)

/-- **A run is a sequence of steps.** -/
theorem run_steps (s : VirtioVsock) (calls : List Call) : Steps AnyLabel s (s.run calls) := by
  induction calls generalizing s with
  | nil => exact .refl s
  | cons call calls ih => exact (step_steps s call).trans (ih _)

end Calls

end VirtioVsock
