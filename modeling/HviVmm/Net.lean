/-
The virtio-net device (`devices::virtio::net`, `VirtioNet`).

Frames of the guest go out through the tap, the gateway's socket or the built-in stack, in
this order of preference; frames for the guest go into the first RX buffer posted, and are
dropped when there is none.

The record holds the source's fields and the guest RAM every call is given.  The host's
socket and tap are what they have taken so far, with a list of the refusals still to come;
a sink is a number, with the log of what each was fed.  The interrupt line and the lines
printed to the console are left out.

* `ringsOk_run` — a ready queue has its rings in guest RAM, in every run.
-/
import HviVmm.ChainIo
import HviVmm.NetStack
import HviVmm.Rings

open ByteCodec Checked
open scoped QueueIndex

def netHdrLen : ℕ := 12

/-- The most bytes a TX chain may carry. -/
def maxTxFrame : ℕ := netHdrLen + maxFrameLen

/-! ### What the host holds -/

/-- The write side of the connection to the gateway. -/
structure GatewaySocket where
  taken : List UInt8 := []
  /-- How many bytes each `write_all` to come takes before it fails, if it does; once the list
  is used up the socket takes all it is given. -/
  refusals : List (Option ℕ) := []
  deriving DecidableEq, Repr

def GatewaySocket.writeAll (sock : GatewaySocket) (bytes : List UInt8) : Bool × GatewaySocket :=
  match sock.refusals with
  | [] => (true, { sock with taken := sock.taken ++ bytes })
  | none :: rest => (true, { taken := sock.taken ++ bytes, refusals := rest })
  | some n :: rest => (false, { taken := sock.taken ++ bytes.take n, refusals := rest })

/-- The descriptor of a tap. -/
structure TapFile where
  taken : List (List UInt8) := []
  /-- Whether each write to come fails. -/
  refusals : List Bool := []
  deriving DecidableEq, Repr

def TapFile.writeAll (tap : TapFile) (bytes : List UInt8) : Bool × TapFile :=
  match tap.refusals with
  | true :: rest => (false, { tap with refusals := rest })
  | refusals => (true, { taken := tap.taken ++ [bytes], refusals := refusals.tail })

/-- The live feed of every frame to a plugin. -/
structure SinkSlot where
  sink : Option ℕ := none
  /-- The sink fed since the last `take_fed`. -/
  fed : Option ℕ := none
  /-- Each frame fed, with the sink, and whether the guest sent it. -/
  records : List (ℕ × List UInt8 × Bool) := []
  deriving DecidableEq, Repr

def SinkSlot.feed (slot : SinkSlot) (frame : List UInt8) (egress : Bool) : SinkSlot :=
  match slot.sink with
  | none => slot
  | some k =>
    { slot with fed := some (slot.fed.getD k), records := slot.records ++ [(k, frame, egress)] }

/-! ### The device -/

/-- The network device. -/
structure VirtioNet where
  transport : Transport 2 := {}
  events : List NetFlow := []
  gw : Option GatewaySocket := none
  tapWriteReported : Bool := false
  tap : Option TapFile := none
  mac : Mac := guestMac
  sink : SinkSlot := {}
  mem : GuestRam

namespace VirtioNet

def rx (s : VirtioNet) : Queue := s.transport.queues 0

def tx (s : VirtioNet) : Queue := s.transport.queues 1

/-- Shows a frame to the sink. -/
def feed (s : VirtioNet) (frame : List UInt8) (egress : Bool) : VirtioNet :=
  { s with sink := s.sink.feed frame egress }

/-- Tells the driver of used buffers. -/
def raise (s : VirtioNet) : VirtioNet :=
  { s with transport := { s.transport with interruptStatus := s.transport.interruptStatus ||| 1 } }

/-! ### Frames for the guest -/

/-- The header `inject_rx` puts before a frame: zeros, but one buffer. -/
def rxHdr : List UInt8 := (List.replicate netHdrLen 0).set 10 1

/-- The head of the first RX chain posted, if the queue is ready and there is one. -/
def rxHead (s : VirtioNet) : Option UInt16 :=
  if s.rx.isReady then
    match s.rx.pending s.mem with
    | none => none
    | some n => if n = 0 then none else s.rx.availSlot s.rx.lastAvail >>= s.mem.readU16
  else none

/-- Completes the RX chain at `head`. -/
def completeRx (s : VirtioNet) (head : UInt16) (written : ℕ) : VirtioNet :=
  let s := { s with mem := s.rx.pushUsed s.mem head (UInt32.ofNat written) }
  { s with transport := s.transport.setQueue 0 (s.rx.setLastAvail (s.rx.lastAvail + 1)) }.raise

/-- Writes a frame into the first RX buffer.  A frame that does not fit is dropped and the
buffer stays posted; what was written of it stays too. -/
def injectRx (s : VirtioNet) (frame : List UInt8) : VirtioNet :=
  let s := s.feed frame false
  match s.rxHead with
  | none => s
  | some head =>
    let out := rxHdr ++ frame
    match s.rx.fillChain s.rx.size.toNat head s.mem out with
    | (some [], mem) => { s with mem }.completeRx head out.length
    | (_, mem) => { s with mem }

/-- `deliver`: the frame, and the sink that was fed. -/
def deliver (s : VirtioNet) (frame : List UInt8) : Option ℕ × VirtioNet :=
  let s := s.injectRx frame
  (s.sink.fed, { s with sink := { s.sink with fed := none } })

/-! ### Frames of the guest -/

/-- The frame of a TX chain, without its header. -/
def readTxFrame (s : VirtioNet) (head : UInt16) : Option (List UInt8) :=
  match s.tx.gatherChain s.mem maxTxFrame s.tx.size.toNat head [] with
  | none => none
  | some buf => if buf.length ≤ netHdrLen then none else some (buf.drop netHdrLen)

/-- The length, then the frame; after a failure the frame is dropped. -/
def relayToGateway (s : VirtioNet) (frame : List UInt8) : VirtioNet :=
  match s.gw with
  | none => s
  | some sock =>
    match sock.writeAll (beBytes 4 (UInt32.ofNat frame.length).toNat) with
    | (true, sock) => { s with gw := some (sock.writeAll frame).2 }
    | (false, sock) => { s with gw := some sock }

def prependVnetHdr (frame : List UInt8) : List UInt8 := List.replicate netHdrLen 0 ++ frame

/-- Sends a frame to the tap. -/
def writeToTap (s : VirtioNet) (frame : List UInt8) : VirtioNet :=
  match s.tap with
  | none => s
  | some tap =>
    match tap.writeAll (prependVnetHdr frame) with
    | (true, tap) => { s with tap := some tap }
    | (false, tap) => { s with tap := some tap, tapWriteReported := true }

/-- Hands one frame to the backend. -/
def transmit (host : NetHost) (s : VirtioNet) (frame : List UInt8) : Checked VirtioNet := do
  let s := s.feed frame true
  if s.tap.isSome then
    let flows ← observeTx frame
    return { s with events := s.events ++ flows }.writeToTap frame
  else if s.gw.isSome then
    let flows ← observeTx frame
    return { s with events := s.events ++ flows }.relayToGateway frame
  else
    let (flows, replies) ← handleFrame host s.mac frame
    return replies.foldl injectRx { s with events := s.events ++ flows }

/-- Completes the TX chain at `head`. -/
def completeTx (s : VirtioNet) (head : UInt16) : VirtioNet :=
  { s with mem := s.tx.pushUsed s.mem head 0 }

/-- What serving one TX head does before the head is completed. -/
def sendHead (host : NetHost) (s : VirtioNet) (head : UInt16) : Checked VirtioNet :=
  match s.readTxFrame head with
  | none => done s
  | some frame => s.transmit host frame

/-- The loop of `process_tx`: up to `pending` heads from `last` on, and whether there was one. -/
def serveTx (host : NetHost) : ℕ → UInt16 → Bool → VirtioNet → Checked (UInt16 × Bool × VirtioNet)
  | 0, last, serviced, s => done (last, serviced, s)
  | pending + 1, last, serviced, s =>
    match s.tx.availSlot last >>= s.mem.readU16 with
    | none => done (last, serviced, s)
    | some head => do
      let s ← s.sendHead host head
      serveTx host pending (last + 1) true (s.completeTx head)

/-- Serves the TX queue. -/
def processTx (host : NetHost) (s : VirtioNet) : Checked VirtioNet :=
  if s.tx.isReady then
    match s.tx.pending s.mem with
    | none => done s
    | some pending => do
      let (last, serviced, s) ← serveTx host pending.toNat s.tx.lastAvail false s
      let s := { s with transport := s.transport.setQueue 1 (s.tx.setLastAvail last) }
      return if serviced then s.raise else s
  else done s

/-! ### Registers and runs -/

/-- A register write. -/
def mmioWrite (host : NetHost) (s : VirtioNet) (w : UInt64 × UInt64) : Checked VirtioNet :=
  let v := w.2.toUInt32
  match Reg.decode w.1 with
  | none => done s
  | some .queueNotify => if v.toUInt16 = 1 then s.processTx host else done s
  | some r => done { s with transport := s.transport.writeReg DeviceKind.net.select s.mem r v }

/-- A call on the device. -/
inductive Op where
  | mmioWrite (w : UInt64 × UInt64)
  | deliver (frame : List UInt8)
  | setMac (mac : Mac)
  | setIoSink (sink : ℕ)
  | takeEvents
  | takeFedSink

/-- One operation of the device. -/
def exec (host : NetHost) (s : VirtioNet) : Op → Checked VirtioNet
  | .mmioWrite w => s.mmioWrite host w
  | .deliver frame => done (s.deliver frame).2
  | .setMac mac => done { s with mac }
  | .setIoSink sink => done { s with sink := { s.sink with sink := some sink } }
  | .takeEvents => done { s with events := [] }
  | .takeFedSink => done { s with sink := { s.sink with fed := none } }

/-- A call, and what the guest's memory holds when it is made. -/
structure Call where
  op : Op
  ram : ℕ → UInt8

/-- The guest wrote its memory. -/
def withRam (s : VirtioNet) (ram : ℕ → UInt8) : VirtioNet :=
  { s with mem := { s.mem with bytes := ram } }

/-- One call; the guest wrote its memory as it liked before. -/
def step (host : NetHost) (s : VirtioNet) (call : Call) : Checked VirtioNet :=
  (s.withRam call.ram).exec host call.op

/-- Operations, one after the other. -/
def run (host : NetHost) (s : VirtioNet) (calls : List Call) : Checked VirtioNet :=
  calls.foldlM (step host) s

/-- The device as `new`, `with_gateway` and `with_tap` make it. -/
def fresh (mem : GuestRam) (gw : Option GatewaySocket) (tap : Option TapFile) : VirtioNet :=
  { gw, tap, mem }

/-! ### The rings stay in guest RAM -/

/-- What the data paths leave alone: the regions of RAM, and all of the queues but how far the
RX queue has come. -/
structure Kept (s s' : VirtioNet) : Prop where
  regions : s'.mem.regions = s.mem.regions
  rx : ∃ last, s'.rx = s.rx.setLastAvail last
  tx : s'.tx = s.tx

theorem Kept.refl (s : VirtioNet) : Kept s s := ⟨rfl, ⟨s.rx.lastAvail, rfl⟩, rfl⟩

theorem Kept.trans {s s' s'' : VirtioNet} (h : Kept s s') (h' : Kept s' s'') : Kept s s'' := by
  obtain ⟨last, hlast⟩ := h.rx
  obtain ⟨last', hlast'⟩ := h'.rx
  refine ⟨h'.regions.trans h.regions, ⟨last', ?_⟩, h'.tx.trans h.tx⟩
  rw [hlast', hlast]
  rfl

/-- Every ready queue has its rings in guest RAM. -/
def RingsOk (s : VirtioNet) : Prop := s.transport.ReadyOk s.mem

section Keeps

variable {s s' : VirtioNet} {frame : List UInt8} {host : NetHost}

theorem Kept.ringsOk (h : Kept s s') (hok : RingsOk s) : RingsOk s' := by
  obtain ⟨last, hlast⟩ := h.rx
  have hrx : s'.rx.ReadyOk s'.mem := by
    rw [hlast]
    exact Queue.readyOk_setLastAvail ((hok 0).congr h.regions) last
  have htx : s'.tx.ReadyOk s'.mem := by
    rw [h.tx]
    exact (hok 1).congr h.regions
  intro i
  match i with
  | 0 => exact hrx
  | 1 => exact htx

/-- A change that leaves the registers alone, and the regions of RAM. -/
theorem Kept.of_transport (ht : s'.transport = s.transport) (hm : s'.mem.regions = s.mem.regions) :
    Kept s s' := by
  have hrx : s'.rx = s.rx := congrArg (fun t : Transport 2 => t.queues 0) ht
  have htx : s'.tx = s.tx := congrArg (fun t : Transport 2 => t.queues 1) ht
  exact ⟨hm, ⟨s.rx.lastAvail, hrx⟩, htx⟩

theorem injectRx_kept (s : VirtioNet) (frame : List UInt8) : Kept s (s.injectRx frame) := by
  have hmem := Queue.fillChain_regions (s.feed frame false).rx
  unfold injectRx
  simp only
  split
  · exact .of_transport rfl rfl
  · next head _ =>
    split
    · next mem hfill =>
      have hregions := hmem (s.feed frame false).rx.size.toNat head (s.feed frame false).mem
        (rxHdr ++ frame)
      rw [hfill] at hregions
      refine ⟨?_, ⟨s.rx.lastAvail + 1, ?_⟩, ?_⟩
      · exact (Queue.pushUsed_regions ..).trans hregions
      · rfl
      · rfl
    · next mem _ hfill =>
      have hregions := hmem (s.feed frame false).rx.size.toNat head (s.feed frame false).mem
        (rxHdr ++ frame)
      rw [hfill] at hregions
      exact .of_transport rfl hregions

theorem foldl_injectRx_kept (s : VirtioNet) (frames : List (List UInt8)) :
    Kept s (frames.foldl injectRx s) := by
  induction frames generalizing s with
  | nil => exact .refl s
  | cons frame frames ih => exact (injectRx_kept s frame).trans (ih _)

theorem relayToGateway_kept (s : VirtioNet) (frame : List UInt8) :
    Kept s (s.relayToGateway frame) := by
  unfold relayToGateway
  split
  · exact .refl s
  · split <;> exact .of_transport rfl rfl

theorem writeToTap_kept (s : VirtioNet) (frame : List UInt8) : Kept s (s.writeToTap frame) := by
  unfold writeToTap
  split
  · exact .refl s
  · split <;> exact .of_transport rfl rfl

theorem transmit_kept (h : s.transmit host frame = done s') : Kept s s' := by
  have hfed : ∀ flows, Kept s { s.feed frame true with events := s.events ++ flows } := by
    intro flows
    exact .of_transport rfl rfl
  simp only [transmit] at h
  split at h
  · obtain ⟨flows, -, h⟩ := bind_eq_done.mp h
    cases h
    exact (hfed flows).trans (writeToTap_kept _ frame)
  · split at h
    · obtain ⟨flows, -, h⟩ := bind_eq_done.mp h
      cases h
      exact (hfed flows).trans (relayToGateway_kept _ frame)
    · obtain ⟨⟨flows, replies⟩, -, h⟩ := bind_eq_done.mp h
      cases h
      exact (hfed flows).trans (foldl_injectRx_kept _ replies)

theorem sendHead_kept {head : UInt16} (h : s.sendHead host head = done s') : Kept s s' := by
  unfold sendHead at h
  split at h
  · cases h
    exact .refl s
  · exact transmit_kept h

theorem completeTx_kept (s : VirtioNet) (head : UInt16) : Kept s (s.completeTx head) :=
  .of_transport rfl (Queue.pushUsed_regions ..)

theorem serveTx_kept {pending : ℕ} {last : UInt16} {serviced : Bool}
    {r : UInt16 × Bool × VirtioNet} (h : serveTx host pending last serviced s = done r) :
    Kept s r.2.2 := by
  induction pending generalizing last serviced s with
  | zero =>
    cases h
    exact .refl s
  | succ pending ih =>
    rw [serveTx] at h
    split at h
    · cases h
      exact .refl s
    · next head _ =>
      obtain ⟨s₁, hs₁, h⟩ := bind_eq_done.mp h
      exact ((sendHead_kept hs₁).trans (completeTx_kept s₁ head)).trans (ih h)

theorem raise_ringsOk (h : RingsOk s) : RingsOk s.raise := h

theorem processTx_ringsOk (hok : RingsOk s) (h : s.processTx host = done s') : RingsOk s' := by
  unfold processTx at h
  split at h
  · split at h
    · cases h
      exact hok
    · obtain ⟨⟨last, serviced, s₁⟩, hs₁, h⟩ := bind_eq_done.mp h
      have hok₁ := (serveTx_kept hs₁).ringsOk hok
      have hset : RingsOk { s₁ with
          transport := s₁.transport.setQueue 1 (s₁.tx.setLastAvail last) } :=
        Transport.setQueue_readyOk hok₁ (Queue.readyOk_setLastAvail (hok₁ 1) last)
      cases h
      split
      · exact raise_ringsOk hset
      · exact hset
  · cases h
    exact hok

theorem exec_ringsOk {op : Op} (hok : RingsOk s) (h : s.exec host op = done s') : RingsOk s' := by
  cases op with
  | mmioWrite w =>
    simp only [exec, mmioWrite] at h
    split at h
    · cases h
      exact hok
    · split at h
      · exact processTx_ringsOk hok h
      · cases h
        exact hok
    · cases h
      exact Transport.writeReg_readyOk hok _ _ _
  | deliver frame =>
    cases h
    exact (injectRx_kept s frame).ringsOk hok
  | setMac _ | setIoSink _ | takeEvents | takeFedSink =>
    cases h
    exact hok

theorem RingsOk.withRam (hok : RingsOk s) (ram : ℕ → UInt8) : RingsOk (s.withRam ram) :=
  fun i => (hok i).congr rfl

/-- **A ready queue has its rings in guest RAM**, in every run. -/
theorem ringsOk_run {calls : List Call} (hok : RingsOk s) (h : s.run host calls = done s') :
    RingsOk s' := by
  induction calls generalizing s with
  | nil =>
    cases h
    exact hok
  | cons call calls ih =>
    rw [run, List.foldlM_cons] at h
    obtain ⟨s₁, hs₁, h⟩ := bind_eq_done.mp h
    exact ih (exec_ringsOk (hok.withRam call.ram) hs₁) h

theorem ringsOk_fresh (mem : GuestRam) (gw : Option GatewaySocket) (tap : Option TapFile) :
    RingsOk (fresh mem gw tap) :=
  Transport.readyOk_default mem

end Keeps

end VirtioNet
