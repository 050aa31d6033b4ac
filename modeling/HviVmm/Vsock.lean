/-
The virtio-vsock device (`devices::virtio::vsock`, `VirtioVsock`).

The device multiplexes host streams over the guest's RX and TX queues: bytes from
a host go through a connection's backlog into packets, packets wait in `pending`
for an RX buffer, and guest packets are parsed and relayed to the host socket as
it takes them.

The record holds the source's fields, the guest RAM every call is given, and fields
that only record what happened: the history of each port, the same with the packets
queued for its connections, every packet queued, the guest's `OP_REQUEST`s, what RX
buffers hold after a packet was written into them, the RX chains walked and how many
connections were registered.  Nothing reads those back.  The interrupt line is left out.

`fill_rx_buffers` is a loop without a bound in the source.  Here it gets as many
rounds as `load` allows; `VsockFill` proves that it never needs more.
-/
import HviVmm.VsockConn
import HviVmm.Rings
import Mathlib.Data.List.AList
import Mathlib.Data.List.MinMax

open ByteStore
open scoped QueueIndex

/-- The device with its guest RAM, and what has happened so far. -/
structure VirtioVsock where
  transport : Transport 3 := {}
  pending : List Packet := []
  conns : AList fun _ : UInt32 => Conn := ∅
  nextPort : UInt32 := 40000
  nextTurn : UInt32 := 0
  mem : GuestRam
  history : UInt32 → List Event := fun _ => []
  log : UInt32 → List Act := fun _ => []
  queued : List Packet := []
  asked : List Hdr := []
  delivered : List Packet := []
  walked : List (List Seg) := []
  registrations : ℕ := 0

namespace Conn

/-- The filter of `frame_backlog`. -/
def framable (c : Conn) : Bool :=
  c.state == .connected && !c.backlog.isEmpty && decide (0 < c.credit.toNat)

/-- How many bytes `frame_backlog` puts in one packet. -/
def frameLen (c : Conn) : ℕ := min (min c.backlog.length maxRw) c.credit.toNat

/-- The connection once `n` bytes of its backlog are framed. -/
def frame (c : Conn) (n : ℕ) : Conn :=
  { c with
    backlog := c.backlog.drop n
    txCnt := c.txCnt + UInt32.ofNat n
    readerGate := if (c.backlog.drop n).length < hostBacklogMax then c.readerGate.opened
      else c.readerGate }

/-- The loop of `flush_to_host`: the bytes the socket takes of `toHost`, what is
left of the schedule, and whether a send failed. -/
def send : List WriteResult → List UInt8 → List UInt8 × List WriteResult × Bool
  | ws, [] => ([], ws, false)
  | [], _ :: _ => ([], [], false)
  | .took n :: ws, b :: bs =>
    if n = 0 then ([], ws, false)
    else
      let r := send ws ((b :: bs).drop n)
      ((b :: bs).take n ++ r.1, r.2)
  | .interrupted :: ws, b :: bs => send ws (b :: bs)
  | .wouldBlock :: ws, _ :: _ => ([], ws, false)
  | .failed :: ws, _ :: _ => ([], ws, true)

/-- The connection once the socket took `sent`. -/
def sentOff (c : Conn) (sent : List UInt8) (writes : List WriteResult) : Conn :=
  { c with
    toHost := c.toHost.drop sent.length
    stream := { c.stream with writes, taken := c.stream.taken ++ sent } }

/-- The credit for `n` bytes and the writer gate, once a flush is over. -/
def flushed (c : Conn) (n : ℕ) : Conn :=
  { c with
    writerGate := if c.toHost.isEmpty then c.writerGate.close else c.writerGate.opened
    rxCnt := c.rxCnt + UInt32.ofNat n }

/-- Whether `host_gone` has to tell a guest that still sends. -/
def goneDue (c : Conn) : Bool :=
  let resetDue := c.hostEof && c.backlog.isEmpty
  let guestSends := !c.guestSendShut && !c.resetSent
  guestSends && c.told &&& shutdownRcv == 0 && !resetDue

/-- The connection once its host has gone: the bytes that wait are credited and
dropped. -/
def gone (c : Conn) : Conn :=
  { c with
    hostGone := true
    toHost := []
    writerGate := c.writerGate.close
    rxCnt := c.rxCnt + UInt32.ofNat c.toHost.length
    told := if c.goneDue then c.told ||| shutdownRcv else c.told }

/-- The guest's credit, taken from a header unless the guest was never offered the
connection. -/
def takeCredit (c : Conn) (h : Hdr) : Conn :=
  if c.state != .new then { c with peerBufAlloc := h.bufAlloc, peerFwdCnt := h.fwdCnt } else c

/-- The directions a guest `OP_SHUTDOWN` or `OP_RST` ends. -/
def shutFlags (h : Hdr) : UInt32 := if h.op = opRst then shutdownBoth else h.flags

/-- The connection after a guest `OP_SHUTDOWN` or `OP_RST`. -/
def guestShut (c : Conn) (h : Hdr) : Conn :=
  let rcv := shutFlags h &&& shutdownRcv != 0
  let send := shutFlags h &&& shutdownSend != 0
  let c := { c with
    guestReset := c.guestReset || h.op == opRst
    guestRcvShut := c.guestRcvShut || rcv
    guestSendShut := c.guestSendShut || send
    backlog := if rcv then [] else c.backlog }
  if c.guestRcvShut then
    { c with readerGate := if c.guestSendShut then c.readerGate.opened else c.readerGate.close }
  else c

/-- What the guest's shutdown takes out of the backlog. -/
def shutClears (c : Conn) (h : Hdr) : List Event :=
  if shutFlags h &&& shutdownRcv != 0 then [.cleared c.backlog] else []

end Conn

/-- Writes `rest` across `segs`, or gives `none` at a segment outside RAM.  It returns
`stored` and after it what each segment holds once it is written, read back from memory;
the source has the number of these bytes, in `off`. -/
def writePkt (mem : GuestRam) : List Seg → List UInt8 → List UInt8 → Option (List UInt8) × GuestRam
  | [], _, stored => (some stored, mem)
  | (addr, len) :: segs, rest, stored =>
    if rest = [] then (some stored, mem)
    else
      let n := min rest.length len.toNat
      match mem.write addr (rest.take n) with
      | none => (none, mem)
      | some mem => writePkt mem segs (rest.drop n) (stored ++ peek mem.bytes addr.toNat n)

/-- The loop of `read_tx`: the bytes of the readable descriptors from `d` on. -/
def readTxChain (q : Queue) (mem : GuestRam) : ℕ → UInt16 → List UInt8 → Option (List UInt8)
  | 0, _, buf => some buf
  | budget + 1, d, buf =>
    match q.readDesc mem d with
    | none => none
    | some desc =>
      let got :=
        if desc.isWrite then some buf
        else if buf.length + desc.len.toNat > maxTxPacket then none
        else (mem.read desc.addr desc.len.toNat).map (buf ++ ·)
      match got with
      | none => none
      | some buf => if desc.hasNext then readTxChain q mem budget desc.next buf else some buf

namespace VirtioVsock

/-- The device as `new` makes it. -/
def fresh (mem : GuestRam) : VirtioVsock := { mem }

def rx (s : VirtioVsock) : Queue := s.transport.queues 0

def tx (s : VirtioVsock) : Queue := s.transport.queues 1

def conn (s : VirtioVsock) (port : UInt32) : Option Conn := s.conns.lookup port

/-- Adds to the history of `port`. -/
def record (history : UInt32 → List Event) (port : UInt32) (events : List Event) :
    UInt32 → List Event :=
  Function.update history port (history port ++ events)

/-- Adds to the log of `port`. -/
def note (log : UInt32 → List Act) (port : UInt32) (acts : List Act) : UInt32 → List Act :=
  Function.update log port (log port ++ acts)

/-- Stores a connection and queues packets. -/
def commit (s : VirtioVsock) (port : UInt32) (c : Conn) (pkts : List Packet) (events : List Event) :
    VirtioVsock :=
  { s with
    conns := s.conns.insert port c
    pending := s.pending ++ pkts
    history := record s.history port events
    log := note s.log port (noted events pkts)
    queued := s.queued ++ pkts }

/-- Removes a connection and queues packets. -/
def remove (s : VirtioVsock) (port : UInt32) (pkts : List Packet) (events : List Event) :
    VirtioVsock :=
  { s with
    conns := s.conns.erase port
    pending := s.pending ++ pkts
    history := record s.history port events
    log := note s.log port (noted events pkts)
    queued := s.queued ++ pkts }

/-- Tells the guest what has ended, and removes what is finished. -/
def settle (s : VirtioVsock) (port : UInt32) : VirtioVsock :=
  match s.conn port with
  | none => s
  | some c =>
    let told := c.shutHostWrite.tellGuest port
    let s := s.commit port told.1 told.2 []
    if told.1.finished then s.remove port (told.1.farewell port) [.ended told.1] else s

/-! ### The way to the guest -/

/-- The port whose turn it is: the first framable one from `next_turn` on, with
wrap. -/
def frameTurn (s : VirtioVsock) : Option UInt32 :=
  ((s.conns.entries.filter fun e => e.2.framable).map Sigma.fst).argmin
    fun port => (port - s.nextTurn).toNat

/-- Frames one packet; `none` when there is nothing to frame. -/
def frameBacklog (s : VirtioVsock) : Option VirtioVsock :=
  match s.frameTurn with
  | none => none
  | some port =>
    match s.conn port with
    | none => none
    | some c =>
      let data := c.backlog.take c.frameLen
      let s := { s with nextTurn := port + 1 }
      let s := s.commit port (c.frame c.frameLen) [rwPkt port data c.rxCnt] [.framed data]
      some (s.settle port)

/-- The head of the RX buffer the guest posted next. -/
def rxHead (s : VirtioVsock) : Option UInt16 :=
  match s.rx.pending s.mem with
  | none => none
  | some n =>
    if n = 0 then none
    else match s.rx.availSlot s.rx.lastAvail with
      | none => none
      | some slot => s.mem.readU16 slot

/-- The writable segments of an RX chain that ends. -/
def rxChain (s : VirtioVsock) (head : UInt16) : Option (List Seg) :=
  let walk := s.rx.chain s.mem head
  if walk.2 = .done then some (writable walk.1) else none

/-- What goes into a buffer of `cap` bytes, and what stays pending. -/
def cutFor (cap : ℕ) (pkt : Packet) (rest : List Packet) : Packet × List Packet :=
  if pkt.length > cap then
    let cut := splitPending pkt cap
    (cut.1, cut.2 :: rest)
  else (pkt, rest)

/-- Writes the front of `pending` into a chain and completes it.  A refused write
ends the loop with the packet gone from `pending`, as in the source. -/
def place (s : VirtioVsock) (head : UInt16) (segs : List Seg) (cut : Packet × List Packet) :
    Bool × VirtioVsock :=
  let w := writePkt s.mem segs cut.1 []
  match w.1 with
  | none => (false, { s with pending := cut.2, mem := w.2 })
  | some stored =>
    let t := s.transport.setQueue 0 (s.rx.setLastAvail (s.rx.lastAvail + 1))
    (true,
      { s with
        pending := cut.2
        mem := s.rx.pushUsed w.2 head (UInt32.ofNat stored.length)
        transport := { t with interruptStatus := t.interruptStatus ||| 1 }
        delivered := s.delivered ++ [stored] })

/-- One round of `fill_rx_buffers` once a packet is pending; the flag says whether
the loop goes on. -/
def deliver (s : VirtioVsock) : Bool × VirtioVsock :=
  match s.rxHead with
  | none => (false, s)
  | some head =>
    match s.rxChain head with
    | none => (false, s)
    | some segs =>
      let s := { s with walked := s.walked ++ [segs] }
      match s.pending with
      | [] => (false, s)
      | pkt :: rest =>
        let cap := totalLen segs
        if cap < hdrLen ∨ (cap < pkt.length ∧ cap = hdrLen) then (false, s)
        else s.place head segs (cutFor cap pkt rest)

/-- Frames a packet when none is pending. -/
def refill (s : VirtioVsock) : Option VirtioVsock :=
  if s.pending.isEmpty then s.frameBacklog else some s

def fillLoop : ℕ → VirtioVsock → VirtioVsock
  | 0, s => s
  | fuel + 1, s =>
    match s.refill with
    | none => s
    | some s =>
      let r := s.deliver
      if r.1 then fillLoop fuel r.2 else r.2

/-- What `fill_rx_buffers` still has to move.  A backlog byte weighs what the
packet that frames it and the two control packets after it weigh. -/
def load (s : VirtioVsock) : ℕ :=
  (s.pending.map fun pkt => pkt.length + 1).sum +
    137 * (s.conns.entries.map fun e => e.2.backlog.length).sum

/-- Delivers and frames while there are buffers. -/
def fillRx (s : VirtioVsock) : VirtioVsock :=
  if s.rx.isReady then fillLoop (s.load + 1) s else s

/-! ### Calls of the bridge -/

/-- Registers a connection and returns its port; `none` when the stream refuses
non-blocking mode. -/
def addConn (s : VirtioVsock) (stream : HostStream) : Option UInt32 × VirtioVsock :=
  if stream.nonblocking then
    (some s.nextPort,
      { s with
        nextPort := s.nextPort + 1
        conns := s.conns.insert s.nextPort { stream }
        history := record s.history s.nextPort [.registered]
        log := note s.log s.nextPort [.did .registered]
        registrations := s.registrations + 1 })
  else (none, s)

def dropConns (s : VirtioVsock) : VirtioVsock := { s with conns := ∅ }

/-- Offers the connection to the guest. -/
def connect (s : VirtioVsock) (port : UInt32) : VirtioVsock :=
  match s.conn port with
  | none => s
  | some c => (s.commit port { c with state := .offered } [requestPkt port] [.offered]).fillRx

/-- Returns whether the caller gets the gate to wait on. -/
def hostData (s : VirtioVsock) (port : UInt32) (data : List UInt8) : Bool × VirtioVsock :=
  match s.conn port with
  | none => (false, s)
  | some c =>
    if c.guestRcvShut then
      if c.guestSendShut then (false, s.commit port c [] [.passed data])
      else (true, s.commit port { c with readerGate := c.readerGate.close } [] [.passed data])
    else
      let s := (s.commit port { c with backlog := c.backlog ++ data } []
        [.passed data, .queued data]).fillRx
      match s.conn port with
      | none => (false, s)
      | some c =>
        if c.backlog.length < hostBacklogMax then (false, s)
        else (true, s.commit port { c with readerGate := c.readerGate.close } [] [])

/-- Returns whether the host is half open. -/
def hostEof (s : VirtioVsock) (port : UInt32) : Bool × VirtioVsock :=
  match s.conn port with
  | none => (false, s)
  | some c =>
    let c := { c with
      hostEof := true, hostHungUp := c.stream.peerHungUp.1, stream := c.stream.peerHungUp.2 }
    let s := ((s.commit port c [] [.eof]).settle port).fillRx
    ((s.conn port).any Conn.hostHalfOpen, s)

/-- A host that had ended its stream closes its end. -/
def hostHungUp (s : VirtioVsock) (port : UInt32) : VirtioVsock :=
  match s.conn port with
  | none => s
  | some c =>
    if c.hostHalfOpen then
      ((s.commit port { c with hostHungUp := true } [] []).settle port).fillRx
    else s

/-- The host takes no more bytes. -/
def hostGone (s : VirtioVsock) (port : UInt32) : VirtioVsock :=
  match s.conn port with
  | none => s
  | some c =>
    if c.hostGone then s
    else
      let pkts := if c.goneDue then [controlPkt port opShutdown shutdownRcv c.gone.rxCnt] else []
      ((s.commit port c.gone pkts [.dropped c.toHost]).settle port).fillRx

/-- Returns whether the connection still needs its bridge writer. -/
def flushToHost (s : VirtioVsock) (port : UInt32) : Bool × VirtioVsock :=
  match s.conn port with
  | none => (false, s)
  | some c =>
    let r := Conn.send c.stream.writes c.toHost
    let sent := c.sentOff r.1 r.2.1
    -- the bytes the socket took before a failed send are not credited
    if r.2.2 then (false, (s.commit port sent [] [.took r.1 false]).hostGone port)
    else
      let c' := sent.flushed r.1.length
      let pkts := if 0 < r.1.length ∧ c'.guestSendShut = false then
        [controlPkt port opCreditUpdate 0 c'.rxCnt] else []
      let s := ((s.commit port c' pkts [.took r.1 true]).settle port).fillRx
      ((s.conn port).isSome, s)

/-! ### Guest packets -/

/-- A stream packet of the guest for the host. -/
def addressedToUs (h : Hdr) : Bool :=
  h.typ == typeStream && h.dstCid == hostCid && h.srcCid == guestCid

/-- The payload of a guest `OP_RW`, as far as the packet holds it. -/
def rwBody (h : Hdr) (pkt : Packet) : List UInt8 := (pkt.drop hdrLen).take h.len.toNat

/-- Takes the credit every header carries. -/
def takeCredit (s : VirtioVsock) (h : Hdr) : VirtioVsock :=
  match s.conn h.dstPort with
  | none => s
  | some c => s.commit h.dstPort (c.takeCredit h) [] [.handled h]

/-- `OP_RESPONSE`: only a connection that was offered may be accepted. -/
def accept (s : VirtioVsock) (port : UInt32) : VirtioVsock :=
  match s.conn port with
  | none => s
  | some c => if c.state = .offered then s.commit port { c with state := .connected } [] [] else s

/-- `OP_RW`: only a completed handshake may carry data, and only within the credit
advertised. -/
def relay (s : VirtioVsock) (port : UInt32) (body : List UInt8) : VirtioVsock :=
  match s.conn port with
  | none => s
  | some c =>
    if c.state = .connected ∧ c.guestSendShut = false then
      if c.hostGone then
        let c := { c with rxCnt := c.rxCnt + UInt32.ofNat body.length }
        (s.commit port c [controlPkt port opCreditUpdate 0 c.rxCnt] [.discarded body]).fillRx
      else if c.toHost.length + body.length > ourBufAlloc.toNat then
        (s.remove port [controlPkt port opRst 0 c.rxCnt] [.overrun]).fillRx
      else
        ((s.commit port { c with toHost := c.toHost ++ body } [] [.appended body]).flushToHost
          port).2.fillRx
    else s

/-- `OP_SHUTDOWN` and `OP_RST`: only a connection that was offered may be torn down. -/
def guestShut (s : VirtioVsock) (h : Hdr) : VirtioVsock :=
  match s.conn h.dstPort with
  | none => s
  | some c =>
    if c.state = .new then s
    else (s.commit h.dstPort (c.guestShut h) [] (c.shutClears h)).settle h.dstPort

/-- `OP_CREDIT_REQUEST`: answered for a live session only. -/
def answerCredit (s : VirtioVsock) (port : UInt32) : VirtioVsock :=
  match s.conn port with
  | none => s
  | some c =>
    if c.state = .connected then
      s.commit port c [controlPkt port opCreditUpdate 0 c.rxCnt] []
    else s

/-- The `match` on the operation. -/
def dispatch (s : VirtioVsock) (h : Hdr) (pkt : Packet) : VirtioVsock :=
  if h.op = opResponse then (s.accept h.dstPort).fillRx
  else if h.op = opRw then s.relay h.dstPort (rwBody h pkt)
  else if h.op = opShutdown ∨ h.op = opRst then (s.guestShut h).fillRx
  else if h.op = opRequest then
    { s with pending := s.pending ++ [refusalPkt h], queued := s.queued ++ [refusalPkt h] }.fillRx
  else if h.op = opCreditRequest then (s.answerCredit h.dstPort).fillRx
  else s.fillRx

/-- Whether `handle_pkt` acts on a header. -/
def admits (h : Hdr) : Bool := addressedToUs h && (h.op == opRequest || h.srcPort == agentPort)

/-- A packet of the guest. -/
def handlePkt (s : VirtioVsock) (pkt : Packet) : VirtioVsock :=
  match Hdr.parse pkt with
  | none => s
  | some h =>
    if admits h then
      if h.op = opRequest then { s with asked := s.asked ++ [h] }.dispatch h pkt
      else (s.takeCredit h).dispatch h pkt
    else s

/-- The packet in the TX chain at `head`. -/
def readTx (s : VirtioVsock) (head : UInt16) : Option Packet :=
  match readTxChain s.tx s.mem s.tx.size.toNat head [] with
  | none => none
  | some buf => if hdrLen ≤ buf.length then some buf else none

/-- Completes a TX buffer. -/
def completeTx (s : VirtioVsock) (head : UInt16) : VirtioVsock :=
  { s with
    mem := s.tx.pushUsed s.mem head 0
    transport := { s.transport with interruptStatus := s.transport.interruptStatus ||| 1 } }

/-- The loop of `process_tx`: up to `pending` heads from `last` on. -/
def serveTx : ℕ → UInt16 → VirtioVsock → UInt16 × VirtioVsock
  | 0, last, s => (last, s)
  | pending + 1, last, s =>
    match s.tx.availSlot last with
    | none => (last, s)
    | some slot =>
      match s.mem.readU16 slot with
      | none => (last, s)
      | some head =>
        let s := match s.readTx head with
          | none => s
          | some pkt => s.handlePkt pkt
        serveTx pending (last + 1) (s.completeTx head)

/-- Serves the TX queue. -/
def processTx (s : VirtioVsock) : VirtioVsock :=
  if s.tx.isReady then
    match s.tx.pending s.mem with
    | none => s
    | some pending =>
      let r := serveTx pending.toNat s.tx.lastAvail s
      { r.2 with transport := r.2.transport.setQueue 1 (r.2.tx.setLastAvail r.1) }
  else s

/-! ### Registers -/

/-- A write of 0 to `STATUS`. -/
def reset (s : VirtioVsock) : VirtioVsock :=
  { s with transport := s.transport.reset, pending := [], conns := ∅ }

/-- A register write. -/
def mmioWrite (s : VirtioVsock) (w : UInt64 × UInt64) : VirtioVsock :=
  let v := w.2.toUInt32
  match Reg.decode w.1 with
  | none => s
  | some .queueNotify =>
    if v.toUInt16 = 1 then s.processTx else if v.toUInt16 = 0 then s.fillRx else s
  | some r =>
    if r = .status ∧ v = 0 then s.reset
    else { s with transport := s.transport.writeReg DeviceKind.vsock.select s.mem r v }

/-! ### Runs -/

/-- A call on the device. -/
inductive Op where
  | addConn (stream : HostStream)
  | connect (port : UInt32)
  | hostData (port : UInt32) (data : List UInt8)
  | hostEof (port : UInt32)
  | hostHungUp (port : UInt32)
  | hostGone (port : UInt32)
  | flushToHost (port : UInt32)
  | handlePkt (pkt : Packet)
  | mmioWrite (w : UInt64 × UInt64)
  | dropConns
  deriving DecidableEq, Repr

/-- One operation of the device. -/
def exec (s : VirtioVsock) : Op → VirtioVsock
  | .addConn stream => (s.addConn stream).2
  | .connect port => s.connect port
  | .hostData port data => (s.hostData port data).2
  | .hostEof port => (s.hostEof port).2
  | .hostHungUp port => s.hostHungUp port
  | .hostGone port => s.hostGone port
  | .flushToHost port => (s.flushToHost port).2
  | .handlePkt pkt => s.handlePkt pkt
  | .mmioWrite w => s.mmioWrite w
  | .dropConns => s.dropConns

/-- A call, and what the guest's memory holds when it is made. -/
structure Call where
  op : Op
  ram : ℕ → UInt8

/-- One call; the guest wrote its memory as it liked before. -/
def step (s : VirtioVsock) (call : Call) : VirtioVsock :=
  { s with mem := { s.mem with bytes := call.ram } }.exec call.op

/-- Operations, one after the other. -/
def run (s : VirtioVsock) (calls : List Call) : VirtioVsock := calls.foldl step s

end VirtioVsock
