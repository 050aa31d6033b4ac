/-
One connection of the virtio-vsock device (`Conn`, `HostGate` and the parts of
`settle` that concern one connection).

The host stream is the bytes it has taken and a schedule of the answers to come:
what each `write` returns and whether each poll finds the peer gone.  Past the end
of the schedule a write would block and the peer is there.

`Event` and `Act` are not in the source.  They name what can happen to a connection
and what it queues, for the histories and logs the device's model keeps.
-/
import HviVmm.VsockPacket

/-- Where a session is in the handshake the device drove. -/
inductive ConnState where
  | new
  | offered
  | connected
  deriving DecidableEq, Repr

/-- A wait a bridge thread does, reduced to whether it has to wait. -/
structure HostGate where
  closed : Bool := false
  deriving DecidableEq, Repr

namespace HostGate

def newClosed : HostGate := ⟨true⟩

def close (_ : HostGate) : HostGate := ⟨true⟩

def opened (_ : HostGate) : HostGate := ⟨false⟩

end HostGate

/-- What a non-blocking `write` returns. -/
inductive WriteResult where
  /-- It took at most this many bytes, and fewer when fewer were offered. -/
  | took (n : ℕ)
  | interrupted
  | wouldBlock
  | failed
  deriving DecidableEq, Repr

/-- The host end of a connection. -/
structure HostStream where
  /-- Whether `set_nonblocking` succeeds. -/
  nonblocking : Bool := true
  writes : List WriteResult := []
  hangups : List Bool := []
  /-- The guest bytes the socket took. -/
  taken : List UInt8 := []
  deriving DecidableEq, Repr

/-- `peer_hung_up`. -/
def HostStream.peerHungUp (s : HostStream) : Bool × HostStream :=
  (s.hangups.head?.getD false, { s with hangups := s.hangups.tail })

/-- A connection between a host stream and a guest port. -/
structure Conn where
  stream : HostStream
  state : ConnState := .new
  rxCnt : UInt32 := 0
  toHost : List UInt8 := []
  backlog : List UInt8 := []
  hostEof : Bool := false
  hostHungUp : Bool := false
  hostGone : Bool := false
  hostWriteShut : Bool := false
  guestRcvShut : Bool := false
  guestSendShut : Bool := false
  guestReset : Bool := false
  told : UInt32 := 0
  resetSent : Bool := false
  peerBufAlloc : UInt32 := 0
  peerFwdCnt : UInt32 := 0
  txCnt : UInt32 := 0
  readerGate : HostGate := {}
  writerGate : HostGate := .newClosed
  deriving DecidableEq, Repr

/-- `u32::saturating_sub`. -/
def saturatingSub (a b : UInt32) : UInt32 := UInt32.ofNat (a.toNat - b.toNat)

namespace Conn

/-- How many more bytes the guest has room for. -/
def credit (c : Conn) : UInt32 :=
  let inFlight := c.txCnt - c.peerFwdCnt
  saturatingSub c.peerBufAlloc inFlight

theorem credit_toNat (c : Conn) :
    c.credit.toNat = c.peerBufAlloc.toNat - (c.txCnt - c.peerFwdCnt).toNat := by
  simp only [credit, saturatingSub, UInt32.toNat_ofNat']
  have hbuf := c.peerBufAlloc.toNat_lt
  omega

def guestFullClose (c : Conn) : Bool := c.guestRcvShut && c.guestSendShut

def hostHalfOpen (c : Conn) : Bool := c.hostEof && !c.hostHungUp && !c.hostGone

/-- Nothing more goes to the guest. -/
def toGuestDone (c : Conn) : Bool :=
  c.guestRcvShut || c.resetSent || c.told &&& shutdownSend != 0

/-- Nothing more goes to the host. -/
def toHostDone (c : Conn) : Bool :=
  c.toHost.isEmpty && (c.guestSendShut || c.resetSent || c.told &&& shutdownRcv != 0)

/-! ### Settling -/

/-- Whether the guest sends nothing more and the host has every guest byte. -/
def writeDue (c : Conn) : Bool :=
  c.guestSendShut && c.toHost.isEmpty && !c.hostWriteShut && !c.hostGone

/-- Shuts the host stream's write half down. -/
def shutHostWrite (c : Conn) : Conn :=
  if c.writeDue then { c with hostWriteShut := true } else c

/-- The guest still holds its end. -/
def guestOpen (c : Conn) : Bool := !c.guestReset && !c.resetSent && !c.guestFullClose

/-- Whether the guest has every host byte there will be and may have to hear of it. -/
def tellDue (c : Conn) : Bool :=
  c.guestOpen && c.hostEof && c.backlog.isEmpty && c.told != shutdownBoth

/-- The host may have closed while the guest read the backlog.  A guest that
receives nothing more hears only of a full close, so the stream is not polled
for it. -/
def pollDue (c : Conn) : Bool := c.told == 0 && !c.hostHungUp && !c.guestRcvShut

def pollHost (c : Conn) : Conn :=
  if c.pollDue then
    { c with hostHungUp := c.stream.peerHungUp.1, stream := c.stream.peerHungUp.2 }
  else c

/-- The directions the guest has to hear the host ended. -/
def hostFlags (c : Conn) : UInt32 :=
  (if c.guestRcvShut then 0 else shutdownSend) ||| (if c.hostHungUp then shutdownBoth else 0)

/-- Queues the `OP_SHUTDOWN` for the directions the guest has not heard of. -/
def announce (c : Conn) (port : UInt32) : Conn × List Packet :=
  if c.hostFlags &&& ~~~c.told != 0 then
    let c := { c with told := c.told ||| c.hostFlags }
    (c, [controlPkt port opShutdown c.told c.rxCnt])
  else (c, [])

/-- Tells the guest what the host has ended, or resets it when the host has gone. -/
def tellGuest (c : Conn) (port : UInt32) : Conn × List Packet :=
  if c.tellDue then
    if c.hostGone then
      ({ c with resetSent := true }, [controlPkt port opRst 0 c.rxCnt])
    else c.pollHost.announce port
  else (c, [])

/-- The connection can go. -/
def finished (c : Conn) : Bool := c.toGuestDone && c.toHostDone

/-- What the guest gets when a finished connection is dropped. -/
def farewell (c : Conn) (port : UInt32) : List Packet :=
  if !c.guestReset && !c.resetSent then
    if c.guestFullClose then [controlPkt port opRst 0 c.rxCnt]
    else if c.told != shutdownBoth then [controlPkt port opShutdown shutdownBoth c.rxCnt]
    else []
  else []

end Conn

/-! ### Histories -/

/-- What happens to the connection on a port. -/
inductive Event where
  /-- `add_conn` gave the port to a new connection. -/
  | registered
  /-- `connect` offered it to the guest. -/
  | offered
  /-- `host_data` was called with these bytes. -/
  | passed (data : List UInt8)
  /-- They went into the backlog. -/
  | queued (data : List UInt8)
  /-- They were framed for the guest. -/
  | framed (data : List UInt8)
  /-- They left the backlog because the guest receives nothing more. -/
  | cleared (data : List UInt8)
  /-- `host_eof` was called. -/
  | eof
  /-- A guest packet with this header was taken. -/
  | handled (h : Hdr)
  /-- The guest's bytes went into `to_host`. -/
  | appended (body : List UInt8)
  /-- The host socket took them; `credited` unless the same flush then failed. -/
  | took (data : List UInt8) (credited : Bool)
  /-- `host_gone` dropped them from `to_host`. -/
  | dropped (data : List UInt8)
  /-- They came after the host had gone. -/
  | discarded (body : List UInt8)
  /-- The guest sent more than the credit it had. -/
  | overrun
  /-- `settle` removed the connection, which stood like this. -/
  | ended (c : Conn)
  deriving DecidableEq, Repr

/-- An event of a connection, or a packet queued for it. -/
inductive Act where
  | did (e : Event)
  | queued (pkt : Packet)
  deriving DecidableEq, Repr

/-- What the log gets of a change: its events, then its packets. -/
def noted (events : List Event) (pkts : List Packet) : List Act :=
  events.map .did ++ pkts.map .queued
