/-
Sessions are isolated, and data follows the handshake.

A guest packet for one port ends with `fill_rx`, which frames the backlog of
whatever connection has its turn.  So it can touch another connection, but only to
frame its bytes and, when that takes the last byte of a host that has ended, to
settle it.

* `Isolated` — what a packet for one port can do to the connection on another;
* `Handshaken` — a connection was offered and then accepted;
* `vsock_session_isolation` — both, for every run.
-/
import HviVmm.VsockSettled
import HviVmm.VsockStream

open VirtioVsock

/-- What a connection `c` has become when `data` was framed for it and nothing else
was done to it. -/
inductive Isolated (c : Conn) (data : List UInt8) : Option Conn → Prop
  /-- Its backlog shrank by what was framed; besides, only the count of framed bytes
  and the reader's gate changed. -/
  | framed {n : ℕ} {gate : HostGate} (hn : n ≤ c.backlog.length)
      (hdata : data = c.backlog.take n) :
      Isolated c data (some { c with
        backlog := c.backlog.drop n, txCnt := c.txCnt + UInt32.ofNat n, readerGate := gate })
  /-- The host had ended and the last byte of its backlog was framed, so that the
  guest was told. -/
  | told {gate : HostGate} {up reset : Bool} {hangups : List Bool} {told : UInt32}
      (heof : c.hostEof = true) (hback : c.backlog ≠ []) (hdata : data = c.backlog)
      (hgrow : c.told ||| told = told) :
      Isolated c data (some { c with
        backlog := [], txCnt := c.txCnt + UInt32.ofNat c.backlog.length, readerGate := gate
        hostHungUp := up, stream := { c.stream with hangups }, told, resetSent := reset })
  /-- The same, and that finished the connection. -/
  | ended (heof : c.hostEof = true) (hback : c.backlog ≠ []) (hdata : data = c.backlog) :
      Isolated c data none

namespace Conn

/-- Framing leaves a settled connection settled, unless the guest is now to be
told. -/
theorem Settled.frame {c : Conn} (h : c.Settled) {n : ℕ} (hdue : (c.frame n).tellDue = false) :
    (c.frame n).Settled :=
  ⟨h.write, fun hd => absurd hd (by simp [hdue]), h.unfinished⟩

section Twice

variable {c : Conn} {data : List UInt8} {n m : ℕ} {gate : HostGate}

/-- Framing `n` and then `m` bytes is framing `n + m`. -/
theorem isolated_frame (hn : n + m ≤ c.backlog.length) (hdata : data = c.backlog.take n) :
    Isolated c (data ++ (c.backlog.drop n).take m)
      (some { c with
        backlog := (c.backlog.drop n).drop m
        txCnt := c.txCnt + UInt32.ofNat n + UInt32.ofNat m, readerGate := gate }) := by
  rw [hdata, ← List.take_add, List.drop_drop, UInt32.add_assoc, ← UInt32.ofNat_add]
  exact .framed hn rfl

theorem take_append_all (hn : n + m = c.backlog.length) (hdata : data = c.backlog.take n) :
    data ++ (c.backlog.drop n).take m = c.backlog := by
  rw [hdata, ← List.take_add, hn, List.take_length]

/-- The same when that is all of the backlog and the guest is told. -/
theorem isolated_told (hn : n + m = c.backlog.length) (hdata : data = c.backlog.take n)
    (heof : c.hostEof = true) (hback : c.backlog ≠ []) {up reset : Bool} {hangups : List Bool}
    {told : UInt32} (hgrow : c.told ||| told = told) :
    Isolated c (data ++ (c.backlog.drop n).take m)
      (some { c with
        backlog := (c.backlog.drop n).drop m
        txCnt := c.txCnt + UInt32.ofNat n + UInt32.ofNat m, readerGate := gate
        hostHungUp := up, stream := { c.stream with hangups }, told, resetSent := reset }) := by
  rw [take_append_all hn hdata, List.drop_drop, UInt32.add_assoc, ← UInt32.ofNat_add, hn,
    List.drop_length]
  exact .told heof hback rfl hgrow

end Twice

end Conn

namespace VirtioVsock

/-- Since the connection on `q` was `c`, with `before` framed for it, it has only
been framed for; and what is left of it is settled or has no more to frame. -/
def Apart (q : UInt32) (c : Conn) (before : List UInt8) (s : VirtioVsock) : Prop :=
  ∃ data, tally Event.framedBytes (s.history q) = before ++ data ∧ Isolated c data (s.conn q) ∧
    ∀ d, s.conn q = some d → d.Settled ∨ d.backlog = []

section Apart

variable {s s' : VirtioVsock} {p q : UInt32} {c : Conn} {before : List UInt8}
variable {d : Conn} {hdr : Hdr}

theorem apart_self (hc : s.conn q = some c) (hset : c.Settled) :
    Apart q c (tally Event.framedBytes (s.history q)) s := by
  refine ⟨[], by simp, ?_, fun d hd => ?_⟩
  · have hzero : Isolated c [] (some { c with
        backlog := c.backlog.drop 0, txCnt := c.txCnt + UInt32.ofNat 0 }) :=
      .framed (Nat.zero_le _) rfl
    rw [List.drop_zero, show UInt32.ofNat 0 = 0 from rfl, UInt32.add_zero] at hzero
    rw [hc]
    exact hzero
  · rw [hc, Option.some.injEq] at hd
    exact .inl (hd ▸ hset)

theorem Apart.congr (h : Apart q c before s) (hconn : s'.conn q = s.conn q)
    (hhist : s'.history q = s.history q) : Apart q c before s' := by
  rw [Apart, hconn, hhist]
  exact h

theorem Apart.commit (h : Apart q c before s) (hq : q ≠ p) (d : Conn) (pkts : List Packet)
    (evs : List Event) : Apart q c before (s.commit p d pkts evs) :=
  h.congr (conn_commit_ne _ _ _ _ hq) (record_ne _ _ hq)

theorem Apart.remove (h : Apart q c before s) (hq : q ≠ p) (pkts : List Packet)
    (evs : List Event) : Apart q c before (s.remove p pkts evs) :=
  h.congr (conn_remove_ne _ _ _ hq) (record_ne _ _ hq)

theorem Apart.settle (h : Apart q c before s) (hq : q ≠ p) : Apart q c before (s.settle p) := by
  unfold VirtioVsock.settle
  split
  · exact h
  · simp only
    split
    · exact (h.commit hq _ _ _).remove hq _ _
    · exact h.commit hq _ _ _

/-- Settling right after framing when the guest need not be told. -/
theorem settle_frame_quiet {n : ℕ} (hset : d.Settled) (hdue : (d.frame n).tellDue = false)
    (pkts : List Packet) (evs : List Event) :
    (s.commit q (d.frame n) pkts evs).settle q = s.commit q (d.frame n) pkts evs := by
  have hwrite : (d.frame n).shutHostWrite = d.frame n := by
    rw [Conn.shutHostWrite, (hset.frame hdue).write]
    rfl
  have htell : (d.frame n).tellGuest q = (d.frame n, []) := by
    rw [Conn.tellGuest, hdue]
    rfl
  unfold VirtioVsock.settle
  simp only [conn_commit_self, hwrite, htell, (hset.frame hdue).unfinished, commit_commit,
    List.append_nil, Bool.false_eq_true, if_false]

/-- Settling right after framing ends the connection or changes what it was told. -/
theorem settle_frame_due (hset : d.Settled) (n : ℕ) (pkts : List Packet) (evs : List Event) :
    ((s.commit q (d.frame n) pkts evs).settle q).conn q = none ∨
      ∃ up hangups told reset, ((s.commit q (d.frame n) pkts evs).settle q).conn q =
        some { d.frame n with
          hostHungUp := up, stream := { d.stream with hangups }, told, resetSent := reset } ∧
        d.told ||| told = told := by
  have hwrite : (d.frame n).shutHostWrite = d.frame n := by
    rw [Conn.shutHostWrite, show (d.frame n).writeDue = false from hset.write]
    rfl
  obtain ⟨up, hangups, told, reset, heq, hgrow⟩ := (d.frame n).tellGuest_fields q
  unfold VirtioVsock.settle
  simp only [conn_commit_self, hwrite]
  split
  · exact .inl (conn_remove_self ..)
  · refine .inr ⟨up, hangups, told, reset, ?_, hgrow⟩
    rw [conn_commit_self, heq]
    rfl

theorem settle_framed (s : VirtioVsock) (q : UInt32) :
    tally Event.framedBytes ((s.settle q).history q) = tally Event.framedBytes (s.history q) := by
  unfold VirtioVsock.settle
  split
  · rfl
  · simp only
    split
    · exact (tally_record rfl _ _ _).trans (tally_record rfl _ _ _)
    · exact tally_record rfl _ _ _

theorem Apart.frame (h : Apart q c before s) (hd : s.conn q = some d) (hf : d.framable = true)
    (turn : UInt32) (pkts : List Packet) :
    Apart q c before ((({ s with nextTurn := turn } : VirtioVsock).commit q (d.frame d.frameLen)
      pkts [.framed (d.backlog.take d.frameLen)]).settle q) := by
  obtain ⟨data, hdata, hiso, hset⟩ := h
  have hlen : d.frameLen ≤ d.backlog.length := (Nat.min_le_left _ _).trans (Nat.min_le_left _ _)
  simp only [Conn.framable, Bool.and_eq_true, Bool.not_eq_true', List.isEmpty_eq_false_iff] at hf
  have hback : d.backlog ≠ [] := hf.1.2
  have hset := (hset d hd).resolve_right hback
  rw [hd] at hiso
  generalize d.frameLen = m at hlen ⊢
  refine ⟨data ++ d.backlog.take m, ?_, ?_⟩
  · rw [settle_framed]
    show tally Event.framedBytes (record s.history q _ q) = _
    rw [record_self, tally_append, hdata]
    simp
  -- only a connection that has not been told can have a backlog left
  cases hiso with
  | told => exact absurd rfl hback
  | @framed n gate hn hdata' =>
    have hnm : n + m ≤ c.backlog.length := by
      simp only [List.length_drop] at hlen
      omega
    cases hdue : Conn.tellDue (Conn.frame _ m) with
    | false =>
      rw [settle_frame_quiet hset hdue, conn_commit_self]
      refine ⟨Conn.isolated_frame hnm hdata', fun e he => ?_⟩
      rw [Option.some.injEq] at he
      exact .inl (he ▸ hset.frame hdue)
    | true =>
      have hdue' := hdue
      simp only [Conn.tellDue, Conn.frame, Bool.and_eq_true, List.isEmpty_iff] at hdue'
      have heof : c.hostEof = true := hdue'.1.1.2
      have hall : n + m = c.backlog.length := by
        have hnil : (c.backlog.drop n).drop m = [] := hdue'.1.2
        rw [List.drop_drop, List.drop_eq_nil_iff] at hnil
        omega
      have hback' : c.backlog ≠ [] := fun h0 => hback (by simp [h0])
      rcases settle_frame_due (s := { s with nextTurn := turn }) (q := q) hset m pkts _ with
        hc | ⟨up, hangups, told, reset, hc, hgrow⟩
      · rw [hc]
        exact ⟨.ended heof hback' (Conn.take_append_all hall hdata'), fun e he => by cases he⟩
      · rw [hc]
        refine ⟨Conn.isolated_told hall hdata' heof hback' hgrow, fun e he => .inr ?_⟩
        rw [Option.some.injEq] at he
        rw [← he]
        exact hdue'.1.2

/-! ### The calls of `handle_pkt` -/

theorem Apart.refill (hr : s.refill = some s') (h : Apart q c before s) : Apart q c before s' := by
  unfold VirtioVsock.refill at hr
  split at hr
  · obtain ⟨p, d, hd, hf, rfl⟩ := frameBacklog_spec hr
    by_cases hq : q = p
    · subst hq
      exact h.frame hd hf _ _
    · have hturn : Apart q c before { s with nextTurn := p + 1 } := h
      exact (hturn.commit hq _ _ _).settle hq
  · cases hr
    exact h

theorem Apart.fillRx (h : Apart q c before s) : Apart q c before s.fillRx :=
  fillRx_inv (fun hr h => h.refill hr)
    (fun {s} h => h.congr (congrArg (AList.lookup q) (deliver_keeps s).1)
      (congrFun (deliver_keeps s).2 q)) h

theorem Apart.hostGone (h : Apart q c before s) (hq : q ≠ p) : Apart q c before (s.hostGone p) := by
  unfold VirtioVsock.hostGone
  split
  · exact h
  · split
    · exact h
    · exact ((h.commit hq _ _ _).settle hq).fillRx

theorem Apart.flushToHost (h : Apart q c before s) (hq : q ≠ p) :
    Apart q c before (s.flushToHost p).2 := by
  unfold VirtioVsock.flushToHost
  split
  · exact h
  · simp only
    split
    · exact (h.commit hq _ _ _).hostGone hq
    · exact ((h.commit hq _ _ _).settle hq).fillRx

theorem Apart.takeCredit (h : Apart q c before s) (hq : q ≠ hdr.dstPort) :
    Apart q c before (s.takeCredit hdr) := by
  unfold VirtioVsock.takeCredit
  split
  · exact h
  · exact h.commit hq _ _ _

theorem Apart.accept (h : Apart q c before s) (hq : q ≠ p) : Apart q c before (s.accept p) := by
  unfold VirtioVsock.accept
  split
  · exact h
  · split
    · exact h.commit hq _ _ _
    · exact h

theorem Apart.relay (h : Apart q c before s) (hq : q ≠ p) (body : List UInt8) :
    Apart q c before (s.relay p body) := by
  unfold VirtioVsock.relay
  split
  · exact h
  · split
    · split
      · exact (h.commit hq _ _ _).fillRx
      · split
        · exact (h.remove hq _ _).fillRx
        · exact ((h.commit hq _ _ _).flushToHost hq).fillRx
    · exact h

theorem Apart.guestShut (h : Apart q c before s) (hq : q ≠ hdr.dstPort) :
    Apart q c before (s.guestShut hdr) := by
  unfold VirtioVsock.guestShut
  split
  · exact h
  · split
    · exact h
    · exact (h.commit hq _ _ _).settle hq

theorem Apart.answerCredit (h : Apart q c before s) (hq : q ≠ p) :
    Apart q c before (s.answerCredit p) := by
  unfold VirtioVsock.answerCredit
  split
  · exact h
  · split
    · exact h.commit hq _ _ _
    · exact h

theorem Apart.dispatch (h : Apart q c before s) (hq : q ≠ hdr.dstPort) (pkt : Packet) :
    Apart q c before (s.dispatch hdr pkt) := by
  unfold VirtioVsock.dispatch
  split
  · exact (h.accept hq).fillRx
  · split
    · exact h.relay hq _
    · split
      · exact (h.guestShut hq).fillRx
      · split
        · have hpend : Apart q c before { s with
              pending := s.pending ++ [refusalPkt hdr]
              queued := s.queued ++ [refusalPkt hdr] } := h
          exact hpend.fillRx
        · split
          · exact (h.answerCredit hq).fillRx
          · exact h.fillRx

/-- **A packet for another port** leaves a connection apart. -/
theorem Apart.handlePkt (h : Apart q c before s) {pkt : Packet} (hhdr : Hdr.parse pkt = some hdr)
    (hq : q ≠ hdr.dstPort) : Apart q c before (s.handlePkt pkt) := by
  unfold VirtioVsock.handlePkt
  simp only [hhdr]
  split
  · split
    · have hasked : Apart q c before { s with asked := s.asked ++ [hdr] } := h
      exact hasked.dispatch hq pkt
    · exact (h.takeCredit hq).dispatch hq pkt
  · exact h

end Apart

/-- A state in which `handle_pkt` may be called: after some calls, and, when the guest
notified the TX queue, after some of its buffers were served. -/
def Receiving (mem : GuestRam) (s : VirtioVsock) : Prop :=
  ∃ calls ram n last, s = (serveTx n last
    { (fresh mem).run calls with mem := { ((fresh mem).run calls).mem with bytes := ram } }).2

theorem Receiving.quiet {mem : GuestRam} {s : VirtioVsock} (h : Receiving mem s) : Quiet s := by
  obtain ⟨calls, ram, n, last, rfl⟩ := h
  exact handlers_quiet.serveTx n last (run_quiet mem calls)

end VirtioVsock

/-! ### The handshake -/

/-- The connection on `p` was offered, and then an `OP_RESPONSE` of the agent for it
was handled. -/
def Handshaken (p : UInt32) (h : List Event) : Prop :=
  ∃ h₁ h₂ hdr h₃, h = h₁ ++ .offered :: h₂ ++ .handled hdr :: h₃ ∧ hdr.op = opResponse ∧
    hdr.srcCid = guestCid ∧ hdr.srcPort = agentPort ∧ hdr.dstPort = p

theorem Handshaken.append {p : UInt32} {h : List Event} (hs : Handshaken p h) (evs : List Event) :
    Handshaken p (h ++ evs) := by
  obtain ⟨h₁, h₂, hdr, h₃, rfl, hrest⟩ := hs
  exact ⟨h₁, h₂, hdr, h₃ ++ evs, by simp, hrest⟩

/-- Events that move bytes between the guest and the host. -/
def Event.moves : Event → Bool
  | appended _ | framed _ => true
  | took data _ => !data.isEmpty
  | _ => false

/-- How far a connection is in its handshake. -/
structure Shaken (p : UInt32) (c : Conn) (h : List Event) : Prop where
  offered : c.state ≠ .new → .offered ∈ h
  connected : c.state = .connected → Handshaken p h
  waiting : c.toHost ≠ [] → Handshaken p h

namespace Shaken

variable {p : UInt32} {c c' : Conn} {h evs : List Event} {pkts : List Packet}

/-- A step that does not move the handshake and gives the host no byte. -/
theorem still (t : Shaken p c h) (evs : List Event) (hstate : c'.state = c.state)
    (hto : c.toHost = [] → c'.toHost = []) : Shaken p c' (h ++ evs) where
  offered hne := List.mem_append_left _ (t.offered (hstate ▸ hne))
  connected hc := (t.connected (hstate ▸ hc)).append _
  waiting hne := (t.waiting fun h0 => hne (hto h0)).append _

theorem fillStep (t : Shaken p c h) (hstep : FillStep p c c' pkts evs) :
    Shaken p c' (h ++ evs) ∧ Marks (fun h e => e.moves = true → Handshaken p h) h evs := by
  cases hstep with
  | frame hf =>
    simp only [Conn.framable, Bool.and_eq_true, beq_iff_eq] at hf
    exact ⟨t.still _ rfl id, fun _ => t.connected hf.1.1, trivial⟩
  | keep | shutWrite | reset | poll | announce => exact ⟨t.still _ rfl id, trivial⟩

theorem hostStep (t : Shaken p c h) (hstep : HostStep p c c' pkts evs) :
    Shaken p c' (h ++ evs) ∧ Marks (fun h e => e.moves = true → Handshaken p h) h evs := by
  cases hstep with
  | offer =>
    refine ⟨⟨fun _ => by simp, fun hc => (by cases hc), fun hne => (t.waiting hne).append _⟩, ?_⟩
    exact ⟨fun hm => (by cases hm), trivial⟩
  | refuse | queue | full | eof | hungUp =>
    exact ⟨t.still _ rfl id, by simp [Marks, Event.moves]⟩
  | gone => exact ⟨t.still _ rfl fun _ => rfl, fun hm => (by cases hm), trivial⟩
  | flush hto | failed hto =>
    refine ⟨t.still _ rfl fun h0 => by simp [Conn.flushed, Conn.sentOff, h0], fun hm => ?_, trivial⟩
    -- what the socket takes was waiting
    simp only [Event.moves, Bool.not_eq_true', List.isEmpty_eq_false_iff] at hm
    exact t.waiting fun h0 => by simp [h0, hm] at hto

theorem credit (t : Shaken p c h) (hdr : Hdr) :
    Shaken p (c.takeCredit hdr) (h ++ [.handled hdr]) := by
  obtain ⟨buf, fwd, heq⟩ := c.takeCredit_eq hdr
  rw [heq]
  exact t.still _ rfl id

theorem arriveStep (t : Shaken p c h) {hdr : Hdr} {body : List UInt8} (hadm : admits hdr = true)
    (hop : hdr.op ≠ opRequest) (hport : hdr.dstPort = p)
    (hstep : ArriveStep p hdr body (c.takeCredit hdr) c' pkts evs) :
    Shaken p c' (h ++ .handled hdr :: evs) ∧
      Marks (fun h e => e.moves = true → Handshaken p h) h (.handled hdr :: evs) := by
  have t' := t.credit hdr
  have happ : h ++ .handled hdr :: evs = (h ++ [.handled hdr]) ++ evs := by simp
  rw [happ]
  generalize c.takeCredit hdr = d at hstep t'
  have hmarks : Marks (fun h e => e.moves = true → Handshaken p h) (h ++ [.handled hdr]) evs →
      Marks (fun h e => e.moves = true → Handshaken p h) h (.handled hdr :: evs) :=
    fun hrest => ⟨fun hm => (by cases hm), hrest⟩
  cases hstep with
  | accept hresp hstate =>
    have hoff : .offered ∈ h := by simpa using t'.offered (by simp [hstate])
    refine ⟨⟨fun _ => by simp [hoff], fun _ => ?_, fun hne => ?_⟩, hmarks trivial⟩
    · -- the offer is in the history, and this packet is the response
      obtain ⟨h₁, h₂, rfl⟩ := List.append_of_mem hoff
      simp only [admits, addressedToUs, Bool.and_eq_true, Bool.or_eq_true, beq_iff_eq] at hadm
      exact ⟨h₁, h₂, hdr, [], by simp, hresp, hadm.1.2, hadm.2.resolve_left hop, hport⟩
    · simpa using t'.waiting hne
  | append _ hstate =>
    have hshake := t'.connected hstate
    refine ⟨⟨fun hne => ?_, fun _ => hshake.append _, fun _ => hshake.append _⟩, hmarks ?_⟩
    · exact List.mem_append_left _ (t'.offered hne)
    · exact ⟨fun _ => hshake, trivial⟩
  | ignore | answer => exact ⟨t'.still _ rfl id, hmarks trivial⟩
  | discard => exact ⟨t'.still _ rfl id, hmarks ⟨fun hm => (by cases hm), trivial⟩⟩
  | shut =>
    refine ⟨t'.still _ ?_ fun h0 => ?_, hmarks ?_⟩
    · simp only [Conn.guestShut]
      split <;> rfl
    · rw [← h0]
      simp only [Conn.guestShut]
      split <;> rfl
    · unfold Conn.shutClears
      split <;> simp [Marks, Event.moves]

end Shaken

theorem sessionInv_shaken : SessionInv Shaken (fun p h e => e.moves = true → Handshaken p h) where
  fresh _ _ := ⟨fun h => absurd rfl h, fun h => (by cases h), fun h => absurd rfl h⟩
  fill hstep t := t.fillStep hstep
  host hstep t := t.hostStep hstep
  arrive hadm hop hport _ hstep t := t.arriveStep hadm hop hport hstep
  overrun _ := by simp [Marks, Event.moves]
  ended _ _ hm := by cases hm

/-- **Sessions are isolated, and data follows the handshake.**  Whenever a guest
packet for one port is handled, any other connection is as it was but for the bytes
framed for it; if those were the last of a host that had ended, the guest may have
been told and the connection ended.  And in every run, no guest byte reaches
`to_host` or the host stream of a connection, and no host byte is framed for it,
unless it was offered and the agent's response was handled after that. -/
theorem vsock_session_isolation (mem : GuestRam) :
    (∀ s pkt hdr q c, Receiving mem s → Hdr.parse pkt = some hdr → q ≠ hdr.dstPort →
      s.conn q = some c →
      ∃ data, tally Event.framedBytes ((s.handlePkt pkt).history q) =
          tally Event.framedBytes (s.history q) ++ data ∧
        Isolated c data ((s.handlePkt pkt).conn q)) ∧
      ∀ calls p h₁ e h₂, life (((fresh mem).run calls).history p) = h₁ ++ e :: h₂ →
        e.moves = true → Handshaken p h₁ := by
  refine ⟨fun s pkt hdr q c hs hhdr hq hc => ?_, fun calls p h₁ e h₂ hlife => ?_⟩
  · obtain ⟨data, hdata, hiso, -⟩ := (apart_self hc (hs.quiet q c hc)).handlePkt hhdr hq
    exact ⟨data, hdata, hiso⟩
  · have hmarks := (sessionInv_shaken.run mem calls).past p
    rw [hlife] at hmarks
    exact hmarks.at

/-- A session whose host sent a byte and ended while the guest had no RX buffer. -/
def endedSession : List Call :=
  rxSetup ++
    [.addConn {}, .connect 40000, .handlePkt (agentPkt 40000 opResponse 0 64 0 []),
      .hostData 40000 [7], .hostEof 40000].map fun op => ⟨op, rxRam 0⟩

/-- A packet for port 1 lets the byte of port 40000 be framed; that was its last, so
the guest is told that its host has ended. -/
theorem vsock_packet_tells_other_session :
    ∃ s c c', s = ((fresh sampleRam).run endedSession).step
        ⟨.handlePkt (agentPkt 1 opCreditUpdate 0 64 0 []), rxRam 2⟩ ∧
      ((fresh sampleRam).run endedSession).conn 40000 = some c ∧ s.conn 40000 = some c' ∧
      c.told = 0 ∧ c'.told = shutdownSend := by
  refine ⟨_,
    { stream := {}, state := .connected, backlog := [7], hostEof := true, peerBufAlloc := 64 },
    { stream := {}, state := .connected, hostEof := true, peerBufAlloc := 64, txCnt := 1
      told := shutdownSend }, rfl, ?_⟩
  decide +kernel
