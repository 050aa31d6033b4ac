/-
Proper packets.

The log of a port shows each packet where it was queued, so what a packet may say
depends on the life of its connection so far.  This is the vocabulary for that and
what a connection has in common with the log of its life.

* `Proper` — what holds of a packet and the life before it;
* `Orderly` — the same for every act of a log, and that a connection which was
  removed is left alone;
* `Disc` — the flags of a connection are what its log says;
* `Disciplined.commit`, `Disciplined.remove` — the rules for one change.
-/
import HviVmm.VsockClose
import HviVmm.VsockLog
import HviVmm.VsockPeer

open VirtioVsock

/-! ### Proper packets -/

/-- The directions the `OP_SHUTDOWN`s of a log have named. -/
def toldBy (L : List Act) : UInt32 :=
  (sentHdrs L).foldl (fun told h => if h.op = opShutdown then told ||| h.flags else told) 0

/-- `host_gone` was called. -/
def HostWent (h : List Event) : Prop := ∃ data, .dropped data ∈ h

/-- Every host byte that was accepted has been framed. -/
def AllFramed (h : List Event) : Prop :=
  tally Event.queuedBytes h = tally Event.framedBytes h

/-- The last act of a log satisfies `P`. -/
def LastAct (P : Act → Prop) (L : List Act) : Prop := ∃ L' a, L = L' ++ [a] ∧ P a

namespace Act

/-- The act takes the connection out of the table. -/
def removes : Act → Bool
  | did (.ended _) => true
  | did .overrun => true
  | _ => false

/-- `host_gone` dropped what waited for the host. -/
def Drops (a : Act) : Prop := ∃ data, a = did (.dropped data)

/-- The guest asked for credit, or the bridge offered the session. -/
def Asks (a : Act) : Prop :=
  a = did .offered ∨ ∃ hdr : Hdr, a = did (.handled hdr) ∧ hdr.op = opCreditRequest

end Act

/-- What holds of a packet with header `h` when the life of its connection so far
is `L`. -/
structure Proper (L : List Act) (h : Hdr) : Prop where
  /-- An `OP_RST` is the first, and the guest has sent none. -/
  reset : h.op = opRst → (∀ g ∈ sentHdrs L, g.op ≠ opRst) ∧ ¬ GuestSent Resets (events L)
  /-- An `OP_SHUTDOWN` names all directions named before and a new one, or is that
  of `host_gone` and names the one direction it is about. -/
  grows : h.op = opShutdown →
    (h.flags ||| toldBy L = h.flags ∧ h.flags ≠ toldBy L) ∨
      (LastAct Act.Drops L ∧ h.flags = shutdownRcv ∧ toldBy L &&& shutdownRcv = 0)
  /-- The host's end is told after its last byte. -/
  done : (h.op = opShutdown ∧ h.flags &&& shutdownSend ≠ 0) ∨ (h.op = opRst ∧ HostWent (events L)) →
    EofLast (events L) → AllFramed (events L) ∨ GuestSent (Shuts shutdownRcv) (events L)
  /-- A guest that has reset the session gets a packet only when one is asked for. -/
  silent : GuestSent Resets (events L) → LastAct Act.Asks L

/-- What holds of each act of a log and what came before it. -/
structure Orderly (L : List Act) (a : Act) : Prop where
  proper : ∀ pkt, a = .queued pkt → ∃ h, Hdr.parse pkt = some h ∧ Proper (lifeLog L) h
  /-- A connection that was removed gets the one packet of its removal. -/
  last : (∃ b ∈ lifeLog L, b.removes = true) → a = .did .registered ∨
    ((∃ pkt, a = .queued pkt) ∧ LastAct (fun b => b.removes = true) L)

/-- What a connection and the log of its life have in common. -/
structure Disc (c : Conn) (L : List Act) : Prop where
  told : Told c (events L)
  peer : Peer c (events L)
  mask : c.told = toldBy L
  both : c.told ||| shutdownBoth = shutdownBoth
  gone : c.hostGone = true ↔ HostWent (events L)
  reset : c.resetSent = true → c.hostGone = true
  unreset : c.resetSent = false → ∀ h ∈ sentHdrs L, h.op ≠ opRst
  live : ∀ a ∈ L, a.removes = false

/-- The invariant of logs. -/
def Disciplined (_ : UInt32) (o : Option Conn) (L : List Act) : Prop :=
  (∀ c, o = some c → Disc c (lifeLog L)) ∧ Marks Orderly [] L

section Packets

variable {L : List Act} {evs : List Event} {pkts : List Packet} {c c' : Conn} {p : UInt32}

theorem mem_events {e : Event} (h : .did e ∈ L) : e ∈ events L :=
  List.mem_filterMap.mpr ⟨.did e, h, rfl⟩

theorem LastAct.mem {P : Act → Prop} {L' : List Act} {a : Act} (h : LastAct P (L ++ a :: L')) :
    ∃ b ∈ a :: L', P b := by
  obtain ⟨M, b, heq, hb⟩ := h
  refine ⟨b, ?_, hb⟩
  have hlast := congrArg List.getLast? heq
  rw [List.getLast?_append_of_ne_nil _ (List.cons_ne_nil a L'), List.getLast?_concat] at hlast
  exact List.mem_of_getLast? hlast

theorem toldBy_append (L L' : List Act) : toldBy (L ++ L') =
    (sentHdrs L').foldl (fun told h => if h.op = opShutdown then told ||| h.flags else told)
      (toldBy L) := by
  rw [toldBy, sentHdrs_append, List.foldl_append, toldBy]

@[simp] theorem parse_controlPkt (p : UInt32) (op : UInt16) (flags fwd : UInt32) :
    Hdr.parse (controlPkt p op flags fwd) =
      some { srcCid := hostCid, dstCid := guestCid, srcPort := p, dstPort := agentPort,
             typ := typeStream, op, flags, bufAlloc := ourBufAlloc, fwdCnt := fwd } := by
  have hparse := fun h => Hdr.parse_toBytes h []
  simp only [List.append_nil] at hparse
  exact hparse _

theorem parse_requestPkt (p : UInt32) : ∃ h, Hdr.parse (requestPkt p) = some h ∧
    h.op = opRequest := by
  have hparse := fun h => Hdr.parse_toBytes h []
  simp only [List.append_nil] at hparse
  exact ⟨_, hparse _, rfl⟩

theorem noted_nil (evs : List Event) : noted evs [] = evs.map .did := by simp [noted]

theorem noted_singleton (evs : List Event) (pkt : Packet) :
    noted evs [pkt] = noted evs [] ++ [.queued pkt] := by simp [noted]

@[simp] theorem toldBy_noted_nil (L : List Act) (evs : List Event) :
    toldBy (L ++ noted evs []) = toldBy L := by
  simp [toldBy_append]

/-- Packets that neither reset nor shut anything. -/
def Plain (pkts : List Packet) : Prop :=
  ∀ h ∈ pkts.filterMap Hdr.parse, h.op ≠ opRst ∧ h.op ≠ opShutdown

theorem toldBy_plain (hplain : Plain pkts) : toldBy (L ++ noted evs pkts) = toldBy L := by
  have hfold : ∀ (hdrs : List Hdr) (told : UInt32), (∀ h ∈ hdrs, h.op ≠ opShutdown) →
      hdrs.foldl (fun told h => if h.op = opShutdown then told ||| h.flags else told) told =
        told := by
    intro hdrs
    induction hdrs with
    | nil => exact fun _ _ => rfl
    | cons h hdrs ih =>
      intro told hne
      rw [List.forall_mem_cons] at hne
      rw [List.foldl_cons, if_neg hne.1]
      exact ih told hne.2
  rw [toldBy_append, sentHdrs_noted]
  exact hfold _ _ fun h hh => (hplain h hh).2

theorem Proper.plain {h : Hdr} (hop : h.op ≠ opRst ∧ h.op ≠ opShutdown)
    (hsilent : GuestSent Resets (events L) → LastAct Act.Asks L) : Proper L h where
  reset hr := absurd hr hop.1
  grows hs := absurd hs hop.2
  done hd := by
    rcases hd with ⟨hs, -⟩ | ⟨hr, -⟩
    · exact absurd hs hop.2
    · exact absurd hr hop.1
  silent := hsilent

end Packets

/-! ### Marking a change -/

section Marking

variable {L : List Act} {evs : List Event} {pkt : Packet} {hdr : Hdr}

/-- Events that remove nothing. -/
def Stays (evs : List Event) : Prop :=
  .registered ∉ evs ∧ ∀ e ∈ evs, (Act.did e).removes = false

theorem lifeLog_noted {pkts : List Packet} (hreg : .registered ∉ evs) :
    lifeLog (L ++ noted evs pkts) = lifeLog L ++ noted evs pkts :=
  lifeLog_append (registered_notMem_noted hreg)

theorem orderly_event (hlive : ∀ b ∈ lifeLog L, b.removes = false) (e : Event) :
    Orderly L (.did e) where
  proper pkt heq := nomatch heq
  last hb := by
    obtain ⟨b, hb, hrem⟩ := hb
    rw [hlive b hb] at hrem
    cases hrem

theorem live_noted (hlive : ∀ b ∈ lifeLog L, b.removes = false) (hstays : Stays evs) :
    ∀ b ∈ lifeLog (L ++ noted evs []), b.removes = false := by
  intro b hb
  rw [lifeLog_noted hstays.1, List.mem_append, noted_nil, List.mem_map] at hb
  rcases hb with hb | ⟨e, he, rfl⟩
  · exact hlive b hb
  · exact hstays.2 e he

/-- The events of a change to a connection that is there. -/
theorem marks_events (hlive : ∀ b ∈ lifeLog L, b.removes = false) (hstays : Stays evs) :
    Marks Orderly L (noted evs []) := by
  induction evs generalizing L with
  | nil => trivial
  | cons e evs ih =>
    have hone : Stays [e] := by
      refine ⟨fun hmem => hstays.1 ?_, fun e' he' => hstays.2 e' ?_⟩
      · rw [List.mem_singleton.mp hmem]
        exact List.mem_cons_self
      · rw [List.mem_singleton.mp he']
        exact List.mem_cons_self
    have hrest : Stays evs :=
      ⟨fun hmem => hstays.1 (List.mem_cons_of_mem _ hmem),
        fun e' he' => hstays.2 e' (List.mem_cons_of_mem _ he')⟩
    exact ⟨orderly_event hlive e, ih (live_noted hlive hone) hrest⟩

/-- The packet of a change to a connection that is there. -/
theorem orderly_packet (hlive : ∀ b ∈ lifeLog L, b.removes = false) (hstays : Stays evs)
    (hparse : Hdr.parse pkt = some hdr) (hproper : Proper (lifeLog L ++ noted evs []) hdr) :
    Orderly (L ++ noted evs []) (.queued pkt) where
  proper pkt' heq := by
    cases heq
    rw [lifeLog_noted hstays.1]
    exact ⟨hdr, hparse, hproper⟩
  last hb := by
    obtain ⟨b, hb, hrem⟩ := hb
    rw [live_noted hlive hstays b hb] at hrem
    cases hrem

theorem orderly_farewell {e : Event} (hreg : .registered ∉ evs ++ [e])
    (hrem : (Act.did e).removes = true) (hparse : Hdr.parse pkt = some hdr)
    (hproper : Proper (lifeLog L ++ noted (evs ++ [e]) []) hdr) :
    Orderly (L ++ noted (evs ++ [e]) []) (.queued pkt) where
  proper pkt' heq := by
    cases heq
    rw [lifeLog_noted hreg]
    exact ⟨hdr, hparse, hproper⟩
  last _ := by
    refine .inr ⟨⟨pkt, rfl⟩, L ++ noted evs [], .did e, ?_, hrem⟩
    simp [noted]

/-- At most one packet, which is proper after the events. -/
def ProperAfter (L : List Act) (evs : List Event) (pkts : List Packet) : Prop :=
  pkts = [] ∨ ∃ pkt hdr, pkts = [pkt] ∧ Hdr.parse pkt = some hdr ∧ Proper (L ++ noted evs []) hdr

variable {pkts : List Packet} {c c' : Conn} {p : UInt32}

theorem Disciplined.commit (h : Disciplined p (some c) L) (hstays : Stays evs)
    (hd : Disc c' (lifeLog L ++ noted evs pkts)) (hpkts : ProperAfter (lifeLog L) evs pkts) :
    Disciplined p (some c') (L ++ noted evs pkts) := by
  have hlive := (h.1 c rfl).live
  have hevs := marks_events hlive hstays
  refine ⟨fun d hd' => ?_, marks_append.mpr ⟨h.2, ?_⟩⟩
  · cases hd'
    rw [lifeLog_noted hstays.1]
    exact hd
  · rcases hpkts with rfl | ⟨pkt, hdr, rfl, hparse, hproper⟩
    · exact hevs
    · rw [noted_singleton]
      exact marks_append.mpr ⟨hevs, orderly_packet hlive hstays hparse hproper, trivial⟩

theorem Disciplined.remove (h : Disciplined p (some c) L) (hstays : Stays evs) {e : Event}
    (hreg : e ≠ .registered) (hrem : (Act.did e).removes = true)
    (hpkts : ProperAfter (lifeLog L) (evs ++ [e]) pkts) :
    Disciplined p none (L ++ noted (evs ++ [e]) pkts) := by
  have hlive := (h.1 c rfl).live
  have hall : .registered ∉ evs ++ [e] := by
    rw [List.mem_append, not_or]
    exact ⟨hstays.1, by simpa using hreg.symm⟩
  have hevs : Marks Orderly L (noted (evs ++ [e]) []) := by
    rw [show noted (evs ++ [e]) [] = noted evs [] ++ [.did e] by simp [noted]]
    exact marks_append.mpr ⟨marks_events hlive hstays,
      orderly_event (live_noted hlive hstays) e, trivial⟩
  refine ⟨fun d hd' => (by cases hd'), marks_append.mpr ⟨h.2, ?_⟩⟩
  rcases hpkts with rfl | ⟨pkt, hdr, rfl, hparse, hproper⟩
  · exact hevs
  · rw [noted_singleton]
    exact marks_append.mpr ⟨hevs, orderly_farewell hall hrem hparse hproper, trivial⟩

end Marking

/-! ### Steps of a connection -/

namespace Disc

variable {L : List Act} {evs : List Event} {pkts : List Packet} {c c' : Conn} {p : UInt32}

theorem new (stream : HostStream) : Disc { stream } [] where
  told := ⟨.new stream, fun h => by simp at h, fun _ h => by simp at h⟩
  peer := .new stream
  mask := rfl
  both := by simp
  gone := ⟨fun h => by simp at h, fun ⟨_, hmem⟩ => by simp [events] at hmem⟩
  reset h := by simp at h
  unreset _ h hh := by simp [sentHdrs] at hh
  live a ha := by simp at ha

/-- The log stays that of a connection which is there. -/
theorem live_append (d : Disc c L) (hstays : Stays evs) :
    ∀ a ∈ L ++ noted evs pkts, a.removes = false := by
  intro a ha
  rw [List.mem_append, noted, List.mem_append, List.mem_map, List.mem_map] at ha
  rcases ha with ha | ⟨e, he, rfl⟩ | ⟨pkt, -, rfl⟩
  · exact d.live a ha
  · exact hstays.2 e he
  · rfl

/-- A step with plain packets that leaves the host's end alone. -/
theorem still (d : Disc c L) (htold : Told c' (events L ++ evs)) (hpeer : Peer c' (events L ++ evs))
    (hstays : Stays evs) (hdrop : ∀ data, .dropped data ∉ evs) (hplain : Plain pkts)
    (hmask : c'.told = c.told) (hgone : c'.hostGone = c.hostGone)
    (hreset : c'.resetSent = c.resetSent) : Disc c' (L ++ noted evs pkts) where
  told := by simpa using htold
  peer := by simpa using hpeer
  mask := by rw [toldBy_plain hplain, hmask, d.mask]
  both := by rw [hmask, d.both]
  gone := by
    rw [hgone, d.gone, events_append, events_noted]
    refine exists_congr fun data => ?_
    rw [List.mem_append]
    exact ⟨.inl, fun hmem => hmem.resolve_right (hdrop data)⟩
  reset hr := by
    rw [hgone]
    exact d.reset (hreset ▸ hr)
  unreset hr h hh := by
    rw [sentHdrs_append, sentHdrs_noted, List.mem_append] at hh
    exact hh.elim (d.unreset (hreset ▸ hr) h) fun hmem => (hplain h hmem).1
  live := d.live_append hstays

/-- With an empty backlog every host byte has been framed, unless the guest ended
that direction. -/
theorem framed (d : Disc c L) (hback : c.backlog = []) :
    AllFramed (events L) ∨ GuestSent (Shuts shutdownRcv) (events L) := by
  cases hrcv : c.guestRcvShut with
  | true => exact .inr (d.peer.rcv.mp hrcv)
  | false =>
    have hled := d.told.ledger.backlog
    rw [d.told.ledger.uncut hrcv, hback, List.append_nil, List.append_nil] at hled
    exact .inl hled

/-- What may be told to a guest that holds its end open. -/
theorem of_guestOpen (d : Disc c L) (hopen : c.guestOpen = true) :
    c.resetSent = false ∧ ¬ GuestSent Resets (events L) := by
  simp only [Conn.guestOpen, Bool.and_eq_true, Bool.not_eq_true'] at hopen
  refine ⟨hopen.1.2, fun hs => ?_⟩
  rw [d.peer.reset.mpr hs] at hopen
  cases hopen.1.1

theorem of_tellDue (d : Disc c L) (hdue : c.tellDue = true) :
    c.resetSent = false ∧ ¬ GuestSent Resets (events L) ∧
      (AllFramed (events L) ∨ GuestSent (Shuts shutdownRcv) (events L)) := by
  simp only [Conn.tellDue, Bool.and_eq_true, List.isEmpty_iff] at hdue
  obtain ⟨hreset, hguest⟩ := d.of_guestOpen hdue.1.1.1
  exact ⟨hreset, hguest, d.framed hdue.1.2⟩

theorem unreset_shutdown (hnone : ∀ h ∈ sentHdrs L, h.op ≠ opRst) (flags fwd : UInt32) :
    ∀ h ∈ sentHdrs (L ++ noted evs [controlPkt p opShutdown flags fwd]), h.op ≠ opRst := by
  intro h hh
  rw [sentHdrs_append, sentHdrs_noted, List.filterMap_cons, parse_controlPkt] at hh
  rcases List.mem_append.mp hh with hh | hh
  · exact hnone h hh
  · rw [List.mem_singleton.mp hh]
    exact (by decide : opShutdown ≠ opRst)

theorem hostFlags_both (c : Conn) : c.hostFlags ||| shutdownBoth = shutdownBoth := by
  unfold Conn.hostFlags
  split <;> split <;> decide

theorem tellReset (d : Disc c L) (hdue : c.tellDue = true) (hgone : c.hostGone = true) :
    Disc { c with resetSent := true } (L ++ noted [] [controlPkt p opRst 0 c.rxCnt]) ∧
      ProperAfter L [] [controlPkt p opRst 0 c.rxCnt] := by
  obtain ⟨hreset, hguest, hdone⟩ := d.of_tellDue hdue
  have ht := d.told.fillStep (p := p) (.reset hdue hgone)
  have hp := d.peer.fillStep (p := p) (.reset hdue hgone)
  constructor
  · refine ⟨by simpa using ht, by simpa using hp, ?_, d.both, ?_, fun _ => hgone, fun h => ?_,
      d.live_append ⟨by simp, by simp⟩⟩
    · rw [toldBy_append]
      simpa [opRst, opShutdown] using d.mask
    · simpa using d.gone
    · cases h
  · refine .inr ⟨_, _, rfl, parse_controlPkt .., ?_, ?_, ?_, ?_⟩
    · intro _
      simpa using ⟨d.unreset hreset, hguest⟩
    · intro h
      exact absurd (show opRst = opShutdown from h) (by decide)
    · intro _ _
      simpa using hdone
    · intro h
      exact absurd (by simpa using h) hguest

/-- The `OP_SHUTDOWN` for what the host has ended. -/
theorem announce (d : Disc c L) (hdue : c.tellDue = true) (hgone : c.hostGone = false)
    (hnew : c.hostFlags &&& ~~~c.told ≠ 0) :
    Disc { c with told := c.told ||| c.hostFlags }
        (L ++ noted [] [controlPkt p opShutdown (c.told ||| c.hostFlags) c.rxCnt]) ∧
      ProperAfter L [] [controlPkt p opShutdown (c.told ||| c.hostFlags) c.rxCnt] := by
  obtain ⟨hreset, hguest, hdone⟩ := d.of_tellDue hdue
  have ht := d.told.fillStep (p := p) (.announce hdue hgone hnew)
  have hp := d.peer.fillStep (p := p) (.announce hdue hgone hnew)
  have hor : c.told ||| (c.told ||| c.hostFlags) = c.told ||| c.hostFlags := by
    rw [← UInt32.or_assoc, UInt32.or_self]
  constructor
  · refine ⟨by simpa using ht, by simpa using hp, ?_, ?_, ?_, d.reset, fun h => ?_,
      d.live_append ⟨by simp, by simp⟩⟩
    · rw [toldBy_append, ← d.mask]
      simpa using hor.symm
    · show (c.told ||| c.hostFlags) ||| shutdownBoth = shutdownBoth
      rw [UInt32.or_assoc, hostFlags_both, d.both]
    · simpa using d.gone
    · exact unreset_shutdown (d.unreset hreset) _ _
  · refine .inr ⟨_, _, rfl, parse_controlPkt .., ?_, ?_, ?_, ?_⟩
    · intro h
      exact absurd (show opShutdown = opRst from h) (by decide)
    · intro _
      rw [toldBy_noted_nil, ← d.mask]
      refine .inl ⟨by rw [UInt32.or_comm, hor], fun heq => hnew ?_⟩
      have hnone := Conn.and_not_or_self c.told c.hostFlags
      rwa [show c.told ||| c.hostFlags = c.told from heq] at hnone
    · intro _ _
      simpa using hdone
    · intro h
      exact absurd (by simpa using h) hguest

/-- The `OP_SHUTDOWN` of `host_gone`, and the end of what waits for the host. -/
theorem hostGone (d : Disc c L) (hgone : c.hostGone = false) :
    Disc c.gone (L ++ noted [.dropped c.toHost]
        (if c.goneDue then [controlPkt p opShutdown shutdownRcv c.gone.rxCnt] else [])) ∧
      ProperAfter L [.dropped c.toHost]
        (if c.goneDue then [controlPkt p opShutdown shutdownRcv c.gone.rxCnt] else []) := by
  have ht := d.told.hostStep (p := p) (.gone hgone)
  have hp := d.peer.hostStep (p := p) (.gone hgone)
  have hstays : Stays [.dropped c.toHost] := ⟨by simp, by simp [Act.removes]⟩
  have hwent : HostWent (events L ++ [.dropped c.toHost]) := ⟨c.toHost, by simp⟩
  have hreset : c.resetSent = false := by
    rw [← Bool.not_eq_true]
    intro hr
    rw [d.reset hr] at hgone
    cases hgone
  have htold : c.gone.told = if c.goneDue then c.told ||| shutdownRcv else c.told := rfl
  cases hdue : c.goneDue with
  | false =>
    rw [hdue, if_neg Bool.false_ne_true] at htold
    refine ⟨⟨by simpa using ht, by simpa using hp, ?_, ?_, ?_, fun _ => rfl, fun _ => ?_,
      d.live_append hstays⟩, .inl rfl⟩
    · rw [htold, if_neg Bool.false_ne_true, toldBy_noted_nil, d.mask]
    · rw [htold, d.both]
    · simpa [Conn.gone] using hwent
    · simpa using d.unreset hreset
  | true =>
    rw [hdue, if_pos rfl] at htold
    simp only [Conn.goneDue, Bool.and_eq_true, Bool.not_eq_true', beq_iff_eq] at hdue
    rw [if_pos rfl]
    refine ⟨⟨by simpa using ht, by simpa using hp, ?_, ?_, ?_, fun _ => rfl, fun _ => ?_,
      d.live_append hstays⟩, .inr ⟨_, _, rfl, parse_controlPkt .., ?_, ?_, ?_, ?_⟩⟩
    · rw [htold, toldBy_append, ← d.mask]
      simp
    · rw [htold, UInt32.or_assoc, show shutdownRcv |||
        shutdownBoth = shutdownBoth by decide, d.both]
    · simpa [Conn.gone] using hwent
    · exact unreset_shutdown (d.unreset hreset) _ _
    · intro h
      exact absurd (show opShutdown = opRst from h) (by decide)
    · intro _
      rw [toldBy_noted_nil, ← d.mask]
      exact .inr ⟨⟨L, .did (.dropped c.toHost), by simp [noted], c.toHost, rfl⟩, rfl, hdue.1.2⟩
    · rintro (⟨-, hsend⟩ | ⟨hrst, -⟩)
      · exact absurd (show shutdownRcv &&& shutdownSend = 0 by decide) hsend
      · exact absurd (show opShutdown = opRst from hrst) (by decide)
    · intro hs
      rw [events_append, events_noted, guestSent_append (by simp), ← d.peer.reset] at hs
      rw [(d.peer.shut_of_reset hs).2] at hdue
      cases hdue.1.1.1

/-- A guest that has reset the session gets nothing unless it still sends. -/
theorem sends_silent (d : Disc c L) (hsend : c.guestSendShut = false) :
    ¬ GuestSent Resets (events L) := by
  intro hs
  rw [(d.peer.shut_of_reset (d.peer.reset.mpr hs)).2] at hsend
  cases hsend

end Disc
