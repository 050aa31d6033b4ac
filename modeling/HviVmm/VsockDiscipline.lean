/-
Resets and shutdowns.

* `logInv_orderly` — every packet a connection queues is proper, and a connection
  that was removed is left alone;
* `vsock_reset_and_shutdown_discipline` — resets and shutdowns in every run;
* `Accounted` — what is queued from a port is queued for its connection, or refuses a
  request to it;
* `vsock_silent_after_guest_reset` — the guest's own reset is the last word, unless
  it asks for credit or for a connection.
-/
import HviVmm.VsockPorts
import HviVmm.VsockProper

open VirtioVsock

/-! ### Steps of the invariant -/

section Steps

variable {L : List Act} {evs : List Event} {pkts : List Packet} {c c' : Conn} {p : UInt32}
variable {hdr : Hdr}

/-- A step without packets that leaves the host's end alone. -/
theorem Disciplined.quiet (h : Disciplined p (some c) L)
    (htold : Told c' (events (lifeLog L) ++ evs))
    (hpeer : Peer c' (events (lifeLog L) ++ evs)) (hstays : Stays evs)
    (hdrop : ∀ data, .dropped data ∉ evs) (hmask : c'.told = c.told)
    (hgone : c'.hostGone = c.hostGone) (hreset : c'.resetSent = c.resetSent) :
    Disciplined p (some c') (L ++ noted evs []) :=
  h.commit hstays ((h.1 c rfl).still htold hpeer hstays hdrop (by simp [Plain]) hmask hgone hreset)
    (.inl rfl)

/-- A step with one plain packet that leaves the host's end alone. -/
theorem Disciplined.plain (h : Disciplined p (some c) L)
    (htold : Told c' (events (lifeLog L) ++ evs)) (hpeer : Peer c' (events (lifeLog L) ++ evs))
    (hstays : Stays evs) (hdrop : ∀ data, .dropped data ∉ evs) (hmask : c'.told = c.told)
    (hgone : c'.hostGone = c.hostGone) (hreset : c'.resetSent = c.resetSent) {pkt : Packet}
    (hparse : Hdr.parse pkt = some hdr) (hop : hdr.op ≠ opRst ∧ hdr.op ≠ opShutdown)
    (hsilent : GuestSent Resets (events (lifeLog L) ++ evs) →
      LastAct Act.Asks (lifeLog L ++ noted evs [])) :
    Disciplined p (some c') (L ++ noted evs [pkt]) := by
  have hplain : Plain [pkt] := by
    intro g hg
    rw [List.filterMap_cons, hparse] at hg
    rw [List.mem_singleton.mp hg]
    exact hop
  refine h.commit hstays ((h.1 c rfl).still htold hpeer hstays hdrop hplain hmask hgone hreset)
    (.inr ⟨pkt, hdr, rfl, hparse, .plain hop fun hs => hsilent ?_⟩)
  simpa using hs

theorem Disciplined.fillStep (h : Disciplined p (some c) L) (hstep : FillStep p c c' pkts evs) :
    Disciplined p (some c') (L ++ noted evs pkts) := by
  have d := h.1 c rfl
  have ht := d.told.fillStep hstep
  have hp := d.peer.fillStep hstep
  have hnil : Stays [] := ⟨by simp, by simp⟩
  cases hstep with
  | keep | shutWrite | poll => exact h.quiet ht hp hnil (by simp) rfl rfl rfl
  | frame hf =>
    have hstays : Stays [.framed (c.backlog.take c.frameLen)] := ⟨by simp, by simp [Act.removes]⟩
    refine h.plain ht hp hstays (by simp) rfl rfl rfl (Hdr.parse_toBytes _ _)
      (show opRw ≠ opRst ∧ opRw ≠ opShutdown by decide) fun hs => ?_
    -- a guest that has reset the session receives nothing, so there is no backlog
    rw [guestSent_append (by simp), ← d.peer.reset] at hs
    exact absurd (d.told.ledger.cut (d.peer.shut_of_reset hs).1) (Ledger.framable_backlog hf)
  | reset hdue hgone =>
    obtain ⟨hd, hpk⟩ := d.tellReset hdue hgone
    exact h.commit hnil hd hpk
  | announce hdue hgone hnew =>
    obtain ⟨hd, hpk⟩ := d.announce hdue hgone hnew
    exact h.commit hnil hd hpk

theorem Disciplined.hostStep (h : Disciplined p (some c) L) (hstep : HostStep p c c' pkts evs) :
    Disciplined p (some c') (L ++ noted evs pkts) := by
  have d := h.1 c rfl
  have ht := d.told.hostStep hstep
  have hp := d.peer.hostStep hstep
  have hstays : Stays evs := by
    refine ⟨hostStep_registered hstep, ?_⟩
    cases hstep <;> simp [Act.removes]
  cases hstep with
  | offer =>
    obtain ⟨hdr, hparse, hop⟩ := parse_requestPkt p
    refine h.plain ht hp hstays (by simp) rfl rfl rfl hparse (hop ▸ by decide) fun _ => ?_
    exact ⟨lifeLog L, .did .offered, by simp [noted], .inl rfl⟩
  | refuse | queue | full | eof | hungUp | failed =>
    exact h.quiet ht hp hstays (by simp) rfl rfl rfl
  | gone hgone =>
    obtain ⟨hd, hpk⟩ := d.hostGone hgone
    exact h.commit hstays hd hpk
  | @flush sent _ _ _ =>
    by_cases hcredit : 0 < sent.length ∧ c.guestSendShut = false
    · rw [if_pos hcredit]
      refine h.plain ht hp hstays (by simp) rfl rfl rfl (parse_controlPkt ..)
        (show opCreditUpdate ≠ opRst ∧ opCreditUpdate ≠ opShutdown by decide) fun hs => ?_
      rw [guestSent_append (by simp)] at hs
      exact absurd hs (d.sends_silent hcredit.2)
    · rw [if_neg hcredit]
      exact h.quiet ht hp hstays (by simp) rfl rfl rfl

theorem Disciplined.arriveStep (h : Disciplined p (some c) L) {body : List UInt8}
    (hstep : ArriveStep p hdr body (c.takeCredit hdr) c' pkts evs) :
    Disciplined p (some c') (L ++ noted (.handled hdr :: evs) pkts) := by
  have d := h.1 c rfl
  have ht := (d.told.credit hdr).arriveStep hstep
  rw [List.append_assoc, List.singleton_append] at ht
  have hp := d.peer.arriveStep hstep
  have hstays : Stays (.handled hdr :: evs) := by
    refine ⟨List.not_mem_cons_of_ne_of_not_mem (by simp) (arriveStep_registered hstep), ?_⟩
    cases hstep with
    | shut =>
      unfold Conn.shutClears
      split <;> simp [Act.removes]
    | _ => simp [Act.removes]
  obtain ⟨buf, fwd, heq⟩ := c.takeCredit_eq hdr
  rw [heq] at hstep
  cases hstep with
  | ignore | accept | append => exact h.quiet ht hp hstays (by simp) rfl rfl rfl
  | discard hop _ hsend =>
    refine h.plain ht hp hstays (by simp) rfl rfl rfl (parse_controlPkt ..)
      (show opCreditUpdate ≠ opRst ∧ opCreditUpdate ≠ opShutdown by decide) fun hs => ?_
    -- the packet is no reset, and a guest that still sends has sent none before
    have happ : events (lifeLog L) ++ [.handled hdr, .discarded body] =
        (events (lifeLog L) ++ [.handled hdr]) ++ [.discarded body] := by simp
    rw [happ, guestSent_append (by simp), guestSent_handled] at hs
    rcases hs with hs | ⟨-, hr⟩
    · exact absurd hs (d.sends_silent hsend)
    · rw [Resets, hop] at hr
      cases hr
  | shut hop =>
    have hfields : ∀ c : Conn, (c.guestShut hdr).told = c.told ∧
        (c.guestShut hdr).hostGone = c.hostGone ∧ (c.guestShut hdr).resetSent = c.resetSent := by
      intro c
      simp only [Conn.guestShut]
      split <;> exact ⟨rfl, rfl, rfl⟩
    obtain ⟨htold, hgone, hreset⟩ := hfields { c with peerBufAlloc := buf, peerFwdCnt := fwd }
    refine h.quiet ht hp hstays (fun data => ?_) htold hgone hreset
    unfold Conn.shutClears
    split <;> simp
  | answer hop =>
    refine h.plain ht hp hstays (by simp) rfl rfl rfl (parse_controlPkt ..)
      (show opCreditUpdate ≠ opRst ∧ opCreditUpdate ≠ opShutdown by decide) fun _ => ?_
    exact ⟨lifeLog L, .did (.handled hdr), by simp [noted], .inr ⟨hdr, rfl, hop⟩⟩

/-- A guest that overruns its credit is reset once: it still sends, so it has not
reset the session, and the host has not gone, so the device has not either. -/
theorem Disciplined.overrun (h : Disciplined p (some c) L) {rx : UInt32} (hop : hdr.op = opRw)
    (hsend : c.guestSendShut = false) (hgone : c.hostGone = false) :
    Disciplined p none (L ++ noted [.handled hdr, .overrun] [controlPkt p opRst 0 rx]) := by
  have d := h.1 c rfl
  have hguest : ¬ GuestSent Resets (events (lifeLog L ++ noted [.handled hdr, .overrun] [])) := by
    rw [events_append, events_noted, show events (lifeLog L) ++ [.handled hdr, .overrun] =
      (events (lifeLog L) ++ [.handled hdr]) ++ [.overrun] by simp, guestSent_append (by simp),
      guestSent_handled]
    rintro (hs | ⟨-, hr⟩)
    · exact d.sends_silent hsend hs
    · rw [Resets, hop] at hr
      cases hr
  have hreset : c.resetSent = false := by
    rw [← Bool.not_eq_true]
    intro hr
    rw [d.reset hr] at hgone
    cases hgone
  have hstays : Stays [.handled hdr] := ⟨by simp, by simp [Act.removes]⟩
  refine h.remove hstays (e := .overrun) (by simp) rfl
    (.inr ⟨_, _, rfl, parse_controlPkt .., ?_, ?_, ?_, fun hs => absurd hs hguest⟩)
  · intro _
    exact ⟨by simpa using d.unreset hreset, hguest⟩
  · intro hs
    exact absurd (show opRst = opShutdown from hs) (by decide)
  · rintro (⟨hs, -⟩ | ⟨-, data, hmem⟩)
    · exact absurd (show opRst = opShutdown from hs) (by decide)
    · have hwent : HostWent (events (lifeLog L)) := ⟨data, by simpa using hmem⟩
      rw [d.gone.mpr hwent] at hgone
      cases hgone

/-- The packet that goes with a finished connection. -/
theorem Disc.farewell (d : Disc c L) (hfin : c.finished = true) :
    ProperAfter L [.ended c] (c.farewell p) := by
  have hevents : events (L ++ noted [.ended c] []) = events L ++ [.ended c] := by simp
  have hend : ∀ P, GuestSent P (events (L ++ noted [.ended c] [])) ↔ GuestSent P (events L) := by
    intro P
    rw [hevents, guestSent_append (by simp)]
  unfold Conn.farewell
  split
  · next hopen =>
    rw [Bool.and_eq_true, Bool.not_eq_true', Bool.not_eq_true'] at hopen
    obtain ⟨hguest, hreset⟩ := hopen
    have hnone : ¬ GuestSent Resets (events L) := by
      rw [← d.peer.reset, hguest]
      exact Bool.false_ne_true
    split
    · next hfull =>
      rw [Conn.guestFullClose, Bool.and_eq_true] at hfull
      refine .inr ⟨_, _, rfl, parse_controlPkt .., ?_, ?_, ?_, ?_⟩
      · intro _
        rw [hend]
        exact ⟨by simpa using d.unreset hreset, hnone⟩
      · intro hs
        exact absurd (show opRst = opShutdown from hs) (by decide)
      · intro _ _
        rw [hend]
        exact .inr (d.peer.rcv.mp hfull.1)
      · intro hs
        exact absurd ((hend _).mp hs) hnone
    · split
      · next htold =>
        refine .inr ⟨_, _, rfl, parse_controlPkt .., ?_, ?_, ?_, ?_⟩
        · intro hs
          exact absurd (show opShutdown = opRst from hs) (by decide)
        · intro _
          rw [toldBy_noted_nil, ← d.mask]
          refine .inl ⟨?_, (bne_iff_ne.mp htold).symm⟩
          rw [UInt32.or_comm]
          exact d.both
        · intro _ hlast
          rw [hevents] at hlast
          have hdone := d.framed (d.told.finished_backlog hfin hlast.left)
          rw [hend, hevents]
          exact hdone.imp_left fun hall => by simpa [AllFramed] using hall
        · intro hs
          exact absurd ((hend _).mp hs) hnone
      · exact .inl rfl
  · exact .inl rfl

end Steps

/-- **Every packet is proper**, and a connection that was removed is left alone. -/
theorem logInv_orderly : LogInv Disciplined where
  fresh _ := ⟨fun c hc => (nomatch hc), trivial⟩
  register {_ _ L} stream h := by
    have hlife : lifeLog (L ++ [.did .registered]) = [] := by rw [lifeLog_concat, if_pos rfl]
    refine ⟨fun c hc => ?_, marks_append.mpr ⟨h.2, ⟨?_, fun _ => .inl rfl⟩, trivial⟩⟩
    · cases hc
      rw [hlife]
      exact .new stream
    · exact fun pkt heq => nomatch heq
  wipe h := ⟨fun c hc => (nomatch hc), h.2⟩
  fill hstep h := h.fillStep hstep
  host hstep h := h.hostStep hstep
  arrive _ hstep h := h.arriveStep hstep
  overrun hop _ hsend hgone h := h.overrun hop hsend hgone
  ended {_ c _} hfin h := by
    have hstays : Stays [] := ⟨by simp, by simp⟩
    exact h.remove hstays (e := .ended c) (by simp) rfl ((h.1 c rfl).farewell hfin)

/-! ### Ports without a connection -/

namespace VirtioVsock

section Absent

variable {s s' : VirtioVsock} {p : UInt32}

/-- A step that registers nothing leaves the log of a port without a connection. -/
theorem Step.log_absent {l : Label} (h : Step l s s') (hl : NoRegister l)
    (hnone : s.conn p = none) : s'.conn p = none ∧ s'.log p = s.log p := by
  have hne : ∀ {q c}, s.conn q = some c → p ≠ q := by
    rintro q c hc rfl
    rw [hnone] at hc
    cases hc
  have hcommit : ∀ {q c} (c' : Conn) (pkts : List Packet) (evs : List Event), s.conn q = some c →
      (s.commit q c' pkts evs).conn p = none ∧ (s.commit q c' pkts evs).log p = s.log p := by
    intro q c c' pkts evs hc
    exact ⟨(conn_commit_ne _ _ _ _ (hne hc)).trans hnone, note_ne _ (hne hc)⟩
  have hremove : ∀ {q c} (pkts : List Packet) (evs : List Event), s.conn q = some c →
      (s.remove q pkts evs).conn p = none ∧ (s.remove q pkts evs).log p = s.log p := by
    intro q c pkts evs hc
    exact ⟨(conn_remove_ne _ _ _ (hne hc)).trans hnone, note_ne _ (hne hc)⟩
  cases h with
  | host hc | fill hc => exact hcommit _ _ _ hc
  | arrive _ _ _ hc => exact hcommit _ _ _ hc
  | overrun _ _ _ hc => exact hremove _ _ hc
  | ended hc => exact hremove _ _ hc
  | refuse | deliver | lose | quiet => exact ⟨hnone, rfl⟩
  | register => exact absurd rfl hl
  | reset | dropConns => exact ⟨rfl, rfl⟩

/-- A call queues nothing for a port without a connection, unless it is the
`add_conn` that hands the port out. -/
theorem step_absent (call : Call) (hnone : s.conn p = none)
    (hadd : ∀ stream, call.op = .addConn stream → s.nextPort ≠ p) :
    (s.step call).conn p = none ∧ (s.step call).log p = s.log p := by
  by_cases hop : ∃ stream, call.op = .addConn stream
  · obtain ⟨stream, hop⟩ := hop
    have hp : p ≠ s.nextPort := (hadd stream hop).symm
    rw [step, hop]
    show (addConn _ stream).2.conn p = none ∧ (addConn _ stream).2.log p = s.log p
    unfold addConn
    split
    · exact ⟨(AList.lookup_insert_ne hp).trans hnone, note_ne _ hp⟩
    · exact ⟨hnone, rfl⟩
  · refine (step_noRegister s fun stream h => hop ⟨stream, h⟩).inv
      (P := fun t => t.conn p = none ∧ t.log p = s.log p) ?_ ⟨hnone, rfl⟩
    intro t t' l hl hstep ht
    obtain ⟨hconn, hlog⟩ := hstep.log_absent hl ht.1
    exact ⟨hconn, hlog.trans ht.2⟩

end Absent

end VirtioVsock

/-! ### Runs -/

/-- **Reset and shutdown discipline**: in every run, at the moment a packet is queued
for a connection, an `OP_RST` is the first one of the connection and the guest has not
sent its own; an `OP_SHUTDOWN` names what was named before and more, or is the one
with which `host_gone` says that the host receives nothing; and one that says the
host sends nothing, like the `OP_RST` of a host that has gone, comes after the last
host byte was framed, unless the guest shut its receive side or `host_data` was called
after `host_eof`.  The `told` mask is what the `OP_SHUTDOWN`s named.  A connection that
was removed gets the packet of its removal and no other, and nothing is queued for a
port without a connection. -/
theorem vsock_reset_and_shutdown_discipline (mem : GuestRam) (calls : List Call) (p : UInt32) :
    (∀ L₁ pkt L₂ h, ((fresh mem).run calls).log p = L₁ ++ .queued pkt :: L₂ →
      Hdr.parse pkt = some h →
      (h.op = opRst →
        (∀ g ∈ sentHdrs (lifeLog L₁), g.op ≠ opRst) ∧ ¬ GuestSent Resets (events (lifeLog L₁))) ∧
      (h.op = opShutdown →
        (h.flags ||| toldBy (lifeLog L₁) = h.flags ∧ h.flags ≠ toldBy (lifeLog L₁)) ∨
          (LastAct Act.Drops (lifeLog L₁) ∧ h.flags = shutdownRcv ∧
            toldBy (lifeLog L₁) &&& shutdownRcv = 0)) ∧
      ((h.op = opShutdown ∧ h.flags &&& shutdownSend ≠ 0) ∨
          (h.op = opRst ∧ HostWent (events (lifeLog L₁))) →
        EofLast (events (lifeLog L₁)) →
        AllFramed (events (lifeLog L₁)) ∨ GuestSent (Shuts shutdownRcv) (events (lifeLog L₁)))) ∧
    (∀ c, ((fresh mem).run calls).conn p = some c →
      c.told = toldBy (lifeLog (((fresh mem).run calls).log p))) ∧
    (∀ L₁ a L₂, ((fresh mem).run calls).log p = L₁ ++ a :: L₂ →
      (∃ b ∈ lifeLog L₁, b.removes = true) → a = .did .registered ∨
        ((∃ pkt, a = .queued pkt) ∧ LastAct (fun b => b.removes = true) L₁)) ∧
    (∀ call, ((fresh mem).run calls).conn p = none →
      (∀ stream, call.op = .addConn stream → ((fresh mem).run calls).nextPort ≠ p) →
      (((fresh mem).run calls).step call).conn p = none ∧
        (((fresh mem).run calls).step call).log p = ((fresh mem).run calls).log p) := by
  obtain ⟨hconn, hmarks⟩ := logInv_orderly.run mem calls p
  refine ⟨?_, ?_, ?_, ?_⟩
  · intro L₁ pkt L₂ h hlog hparse
    rw [hlog] at hmarks
    obtain ⟨h', hparse', hproper⟩ := hmarks.at.proper pkt rfl
    rw [hparse', Option.some.injEq] at hparse
    subst hparse
    exact ⟨hproper.reset, hproper.grows, hproper.done⟩
  · intro c hc
    exact (hconn c hc).mask
  · intro L₁ a L₂ hlog
    rw [hlog] at hmarks
    exact hmarks.at.last
  · intro call hnone hadd
    exact step_absent call hnone hadd

/-- The guest resets a session it was never offered, is offered it, and closes it. -/
def resetBeforeOffer : List Call :=
  [.addConn {}, .handlePkt (agentPkt 40000 opRst 0 64 0 []), .connect 40000,
    .handlePkt (agentPkt 40000 opResponse 0 64 0 []),
    .handlePkt (agentPkt 40000 opShutdown shutdownBoth 64 0 [])].map fun op => ⟨op, fun _ => 0⟩

/-- Three runs outside the discipline.  A byte passed to `host_data` after `host_eof` is
not framed when the `OP_SHUTDOWN` for both directions goes out; a guest `OP_REQUEST` to the
port of a connection that was removed is answered from that port; and an `OP_RST` follows
one that the guest sent before it was offered the session. -/
theorem vsock_discipline_exceptions :
    (∃ L c fwd, ((fresh sampleRam).run sendsAfterEof).log 40000 =
        L ++ [.did (.ended c), .queued (controlPkt 40000 opShutdown shutdownBoth fwd)] ∧
      c.guestRcvShut = false ∧ tally Event.queuedBytes (events L) = [7] ∧
      tally Event.framedBytes (events L) = []) ∧
    (((fresh sampleRam).run sendsAfterEof).conn 40000 = none ∧
      ∃ hdr : Hdr, hdr.srcPort = 40000 ∧
        (((fresh sampleRam).run sendsAfterEof).handlePkt
          (agentPkt 40000 opRequest 0 64 0 [])).pending =
          ((fresh sampleRam).run sendsAfterEof).pending ++ [hdr.toBytes]) ∧
    ∃ L₁ hdr L₂ fwd, ((fresh sampleRam).run resetBeforeOffer).log 40000 =
        L₁ ++ .did (.handled hdr) :: L₂ ++ [.queued (controlPkt 40000 opRst 0 fwd)] ∧
      hdr.op = opRst := by
  refine ⟨?_, ?_, ?_⟩
  · refine ⟨(((fresh sampleRam).run sendsAfterEof).log 40000).take 9,
      { stream := {}, state := .connected, backlog := [7], hostEof := true, hostWriteShut := true,
        guestSendShut := true, told := shutdownSend, peerBufAlloc := 64 }, 0, ?_⟩
    decide +kernel
  · refine ⟨by decide +kernel,
      { srcCid := hostCid, dstCid := guestCid, srcPort := 40000, dstPort := agentPort,
        typ := typeStream, op := opRst }, ?_⟩
    decide +kernel
  · refine ⟨[.did .registered],
      { srcCid := guestCid, dstCid := hostCid, srcPort := agentPort, dstPort := 40000,
        typ := typeStream, op := opRst, bufAlloc := 64 },
      ((((fresh sampleRam).run resetBeforeOffer).log 40000).drop 2).dropLast, 0, ?_⟩
    decide +kernel

/-! ### After the guest's reset -/

/-- Every packet queued from port `p` between `s` and `s'` was queued for its connection,
or the guest has sent an `OP_REQUEST` to the port. -/
def Accounted (p : UInt32) (s s' : VirtioVsock) : Prop :=
  ∃ new L reqs, s'.queued = s.queued ++ new ∧ s'.log p = s.log p ++ L ∧
    s'.asked = s.asked ++ reqs ∧
    ∀ pkt ∈ new, ∀ h, Hdr.parse pkt = some h → h.srcPort = p →
      .queued pkt ∈ L ∨ ∃ r ∈ reqs, r.dstPort = p

section Accounted

variable {s s' t : VirtioVsock} {p q : UInt32} {pkts : List Packet} {evs : List Event}

theorem Accounted.refl (p : UInt32) (s : VirtioVsock) : Accounted p s s :=
  ⟨[], [], [], by simp, by simp, by simp, by simp⟩

/-- A state in which the same was queued and asked. -/
theorem Accounted.same (hq : s'.queued = s.queued) (hl : s'.log p = s.log p)
    (ha : s'.asked = s.asked) : Accounted p s s' :=
  ⟨[], [], [], by simpa using hq, by simpa using hl, by simpa using ha, by simp⟩

theorem Accounted.trans (h : Accounted p s s') (h' : Accounted p s' t) : Accounted p s t := by
  obtain ⟨new, L, reqs, hq, hl, ha, hall⟩ := h
  obtain ⟨new', L', reqs', hq', hl', ha', hall'⟩ := h'
  refine ⟨new ++ new', L ++ L', reqs ++ reqs', by rw [hq', hq, List.append_assoc],
    by rw [hl', hl, List.append_assoc], by rw [ha', ha, List.append_assoc], ?_⟩
  intro pkt hpkt g hparse hsrc
  rcases List.mem_append.mp hpkt with hpkt | hpkt
  · refine (hall pkt hpkt g hparse hsrc).imp (List.mem_append_left _) ?_
    rintro ⟨r, hr, hp⟩
    exact ⟨r, List.mem_append_left _ hr, hp⟩
  · refine (hall' pkt hpkt g hparse hsrc).imp (List.mem_append_right _) ?_
    rintro ⟨r, hr, hp⟩
    exact ⟨r, List.mem_append_right _ hr, hp⟩

/-- A connection queues packets from its own port. -/
theorem Accounted.record (hsent : ∀ pkt ∈ pkts, ∃ fwd, Sent q fwd pkt)
    (hq : s'.queued = s.queued ++ pkts) (hl : s'.log = note s.log q (noted evs pkts))
    (ha : s'.asked = s.asked) : Accounted p s s' := by
  by_cases hp : p = q
  · subst hp
    refine ⟨pkts, noted evs pkts, [], hq, by rw [hl, note_self], by simpa using ha, ?_⟩
    intro pkt hpkt g _ _
    exact .inl (by simp [noted, hpkt])
  · refine ⟨pkts, [], [], hq, by rw [hl, note_ne _ hp, List.append_nil], by simpa using ha, ?_⟩
    intro pkt hpkt g hparse hsrc
    obtain ⟨fwd, f, rfl, hfrom, -⟩ := hsent pkt hpkt
    rw [Frame.parse_bytes, Option.some.injEq] at hparse
    exact absurd (hsrc.symm.trans (hparse ▸ hfrom)) hp

/-- **One step** accounts for what it queues. -/
theorem Accounted.step {l : Label} (hstep : Step l s s') (p : UInt32) : Accounted p s s' := by
  cases hstep with
  | host _ hhost =>
    refine .record (fun pkt hpkt => ?_) rfl rfl rfl
    rcases hostStep_sent hhost pkt hpkt with hsent | ⟨rfl, -⟩
    · exact ⟨_, hsent⟩
    · exact ⟨_, sent_requestPkt _⟩
  | arrive _ _ _ _ harr =>
    exact .record (fun pkt hpkt => ⟨_, arriveStep_sent harr pkt hpkt⟩) rfl rfl rfl
  | overrun =>
    refine .record (fun pkt hpkt => ?_) rfl rfl rfl
    rw [List.mem_singleton] at hpkt
    exact ⟨_, hpkt ▸ sent_controlPkt ..⟩
  | fill _ hfill =>
    exact .record (fun pkt hpkt => ⟨_, (fillStep_sent hfill).2 pkt hpkt⟩) rfl rfl rfl
  | ended => exact .record (fun pkt hpkt => ⟨_, farewell_sent _ _ pkt hpkt⟩) rfl rfl rfl
  | @refuse _ _ hdr =>
    refine ⟨[refusalPkt hdr], [], [hdr], rfl, (List.append_nil _).symm, rfl, ?_⟩
    intro pkt hpkt g hparse hsrc
    rw [List.mem_singleton.mp hpkt, refusalPkt, ← List.append_nil (Hdr.toBytes _),
      Hdr.parse_toBytes, Option.some.injEq] at hparse
    exact .inr ⟨hdr, List.mem_singleton_self _, hsrc ▸ hparse ▸ rfl⟩
  | deliver | lose | quiet | reset | dropConns => exact .same rfl rfl rfl
  | @register _ stream hn =>
    rw [addConn, if_pos hn]
    exact @Accounted.record s _ p s.nextPort [] [.registered] (by simp) (List.append_nil _).symm
      rfl rfl

theorem accounted_run (s : VirtioVsock) (calls : List Call) (p : UInt32) :
    Accounted p s (s.run calls) :=
  (run_steps s calls).inv (P := Accounted p s) (fun _ hstep h => h.trans (.step hstep p))
    (.refl p s)

end Accounted

/-- After the guest's reset the log of the port has no more packets. -/
theorem silent_log (mem : GuestRam) (calls : List Call) (p : UInt32) {L₁ L₂ : List Act} {hdr : Hdr}
    (hlog : ((fresh mem).run calls).log p = L₁ ++ .did (.handled hdr) :: L₂)
    (hreset : hdr.op = opRst) (hoffered : .offered ∈ events (lifeLog L₁))
    (hsame : .registered ∉ events L₂)
    (hcredit : ∀ h, .handled h ∈ events L₂ → h.op ≠ opCreditRequest)
    (honce : .offered ∉ events L₂) : ∀ pkt, .queued pkt ∉ L₂ := by
  intro pkt hpkt
  obtain ⟨-, hmarks⟩ := logInv_orderly.run mem calls p
  obtain ⟨L₃, L₄, rfl⟩ := List.append_of_mem hpkt
  rw [hlog, show L₁ ++ .did (.handled hdr) :: (L₃ ++ .queued pkt :: L₄) =
    (L₁ ++ .did (.handled hdr) :: L₃) ++ .queued pkt :: L₄ by simp] at hmarks
  obtain ⟨h, -, hproper⟩ := hmarks.at.proper pkt rfl
  -- the life goes on through the reset up to the packet
  have hlife : lifeLog (L₁ ++ .did (.handled hdr) :: L₃) =
      lifeLog L₁ ++ .did (.handled hdr) :: L₃ := by
    refine lifeLog_append fun hmem => ?_
    rcases List.mem_cons.mp hmem with heq | hmem
    · cases heq
    · exact hsame (mem_events (List.mem_append_left _ hmem))
  have hsent : GuestSent Resets (events (lifeLog L₁ ++ .did (.handled hdr) :: L₃)) :=
    ⟨events (lifeLog L₁), hdr, events L₃, by simp [events, Act.event?], hoffered, hreset⟩
  have hlast := hproper.silent
  rw [hlife] at hlast
  obtain ⟨a, ha, hasks⟩ := (hlast hsent).mem
  -- so the packet was asked for after the reset
  rcases hasks with rfl | ⟨hdr', rfl, hop⟩
  · rcases List.mem_cons.mp ha with heq | hmem
    · cases heq
    · exact honce (mem_events (List.mem_append_left _ hmem))
  · rcases List.mem_cons.mp ha with heq | hmem
    · cases heq
      rw [hreset] at hop
      cases hop
    · exact hcredit hdr' (mem_events (List.mem_append_left _ hmem)) hop

/-- **The guest's reset is the last word.**  Take a run in which the guest has reset a
session it was offered, and any continuation of it in which the guest asks for no credit on
the session and for no connection on its port, and in which the port is neither offered nor
handed out again.  No packet is queued for the session after the reset, and none of the
packets queued in the continuation comes from its port. -/
theorem vsock_silent_after_guest_reset (mem : GuestRam) (calls later : List Call) (p : UInt32)
    {L₁ L₂ L₃ : List Act} {hdr : Hdr} {reqs : List Hdr}
    (hlog : ((fresh mem).run calls).log p = L₁ ++ .did (.handled hdr) :: L₂)
    (hreset : hdr.op = opRst) (hoffered : .offered ∈ events (lifeLog L₁))
    (hlater : (((fresh mem).run calls).run later).log p = ((fresh mem).run calls).log p ++ L₃)
    (hasked : (((fresh mem).run calls).run later).asked = ((fresh mem).run calls).asked ++ reqs)
    (hsame : .registered ∉ events (L₂ ++ L₃))
    (hcredit : ∀ h, .handled h ∈ events (L₂ ++ L₃) → h.op ≠ opCreditRequest)
    (honce : .offered ∉ events (L₂ ++ L₃)) (hrequest : ∀ r ∈ reqs, r.dstPort ≠ p) :
    (∀ pkt, .queued pkt ∉ L₂ ++ L₃) ∧
      ∃ new, (((fresh mem).run calls).run later).queued = ((fresh mem).run calls).queued ++ new ∧
        ∀ pkt ∈ new, ∀ h, Hdr.parse pkt = some h → h.srcPort ≠ p := by
  have hrun : ((fresh mem).run calls).run later = (fresh mem).run (calls ++ later) :=
    List.foldl_append.symm
  have hall : ((fresh mem).run (calls ++ later)).log p =
      L₁ ++ .did (.handled hdr) :: (L₂ ++ L₃) := by
    rw [← hrun, hlater, hlog]
    simp
  have hsilent := silent_log mem (calls ++ later) p hall hreset hoffered hsame hcredit honce
  refine ⟨hsilent, ?_⟩
  obtain ⟨new, L, rs, hq, hl, ha, hnew⟩ := accounted_run ((fresh mem).run calls) later p
  have hL : L = L₃ := List.append_cancel_left (hl.symm.trans hlater)
  have hrs : rs = reqs := List.append_cancel_left (ha.symm.trans hasked)
  subst hL hrs
  refine ⟨new, hq, fun pkt hpkt h hparse hsrc => ?_⟩
  rcases hnew pkt hpkt h hparse hsrc with hmem | ⟨r, hr, hp⟩
  · exact hsilent pkt (List.mem_append_right _ hmem)
  · exact hrequest r hr hp

/-- The guest sends a byte that the host does not take and resets the session. -/
def resetSession : List Call :=
  [.addConn {}, .connect 40000, .handlePkt (agentPkt 40000 opResponse 0 64 0 []),
    .handlePkt (agentPkt 40000 opRw 0 64 0 [7]),
    .handlePkt (agentPkt 40000 opRst 0 64 0 [])].map fun op => ⟨op, fun _ => 0⟩

/-- The `OP_RST` in this run. -/
def agentReset : Hdr :=
  { srcCid := guestCid, dstCid := hostCid, srcPort := agentPort, dstPort := 40000,
    typ := typeStream, op := opRst, bufAlloc := 64 }

theorem resetSession_log : ((fresh sampleRam).run resetSession).log 40000 =
    (((fresh sampleRam).run resetSession).log 40000).take 7 ++
      .did (.handled agentReset) :: [.did (.cleared [])] := by
  decide +kernel

/-- The host closes, and another connection is accepted: its request is queued. -/
theorem vsock_silent_after_guest_reset_eof :
    ∃ new, (((fresh sampleRam).run resetSession).run
          [⟨.hostEof 40000, fun _ => 0⟩, ⟨.addConn {}, fun _ => 0⟩,
            ⟨.connect 40001, fun _ => 0⟩]).queued =
        ((fresh sampleRam).run resetSession).queued ++ new ∧
      ∀ pkt ∈ new, ∀ h, Hdr.parse pkt = some h → h.srcPort ≠ 40000 := by
  refine (@vsock_silent_after_guest_reset sampleRam resetSession _ 40000 _ _ [.did .eof] _ []
    resetSession_log rfl ?_ ?_ ?_ ?_ ?_ ?_ ?_).2
  · decide +kernel
  · decide +kernel
  · decide +kernel
  · decide
  · simp [events, Act.event?]
  · decide
  · simp

/-- The answer to the guest's `OP_CREDIT_REQUEST` goes out after its `OP_RST`. -/
theorem vsock_credit_after_guest_reset :
    ∃ later L₁ L₂ fwd, ((fresh sampleRam).run resetSession).log 40000 =
        L₁ ++ .did (.handled agentReset) :: L₂ ∧
      agentReset.op = opRst ∧ .offered ∈ events (lifeLog L₁) ∧ .registered ∉ events L₂ ∧
      (((fresh sampleRam).run resetSession).run later).queued =
        ((fresh sampleRam).run resetSession).queued ++ [controlPkt 40000 opCreditUpdate 0 fwd] := by
  exact ⟨[⟨.handlePkt (agentPkt 40000 opCreditRequest 0 64 0 []), fun _ => 0⟩], _, _, 0,
    resetSession_log, rfl, by decide +kernel, by decide, by decide +kernel⟩
