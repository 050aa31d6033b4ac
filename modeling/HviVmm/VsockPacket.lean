/-
The packets of the virtio-vsock device (`devices::virtio::vsock`, `Hdr`).

A packet is a 44-byte little-endian header and a payload.  The device keeps its
packets as bytes, parses the ones the guest sends, and rewrites the header of one
it has to cut.

* `Hdr.parse_toBytes` — a header is read back from the packet it was put in;
* `Frame` — a packet whose header counts its payload, which is all the device
  ever queues;
* `Frame.splitPending_bytes` — cutting such a packet gives two, with the payload shared
  between them.
-/
import HviVmm.ByteCodec
import Mathlib.Order.Lattice.Nat

open ByteCodec

def hostCid : UInt64 := 2
def guestCid : UInt64 := 3
def agentPort : UInt32 := 1024

/-- Length of `virtio_vsock_hdr`. -/
def hdrLen : ℕ := 44

def typeStream : UInt16 := 1
def opRequest : UInt16 := 1
def opResponse : UInt16 := 2
def opRst : UInt16 := 3
def opShutdown : UInt16 := 4
def opRw : UInt16 := 5
def opCreditUpdate : UInt16 := 6
def opCreditRequest : UInt16 := 7

/-- The sender takes no more bytes. -/
def shutdownRcv : UInt32 := 1
/-- The sender sends no more bytes. -/
def shutdownSend : UInt32 := 2
def shutdownBoth : UInt32 := shutdownRcv ||| shutdownSend

/-- The credit the device advertises. -/
def ourBufAlloc : UInt32 := 64 * 1024
/-- The most payload in one packet to the guest. -/
def maxRw : ℕ := 4096
/-- The longest packet a transmit chain may hold. -/
def maxTxPacket : ℕ := hdrLen + 64 * 1024
/-- The backlog at which the bridge stops reading the host socket. -/
def hostBacklogMax : ℕ := 64 * 1024

/-- A packet as it crosses the queues. -/
abbrev Packet := List UInt8

structure Hdr where
  srcCid : UInt64 := 0
  dstCid : UInt64 := 0
  srcPort : UInt32 := 0
  dstPort : UInt32 := 0
  len : UInt32 := 0
  typ : UInt16 := 0
  op : UInt16 := 0
  flags : UInt32 := 0
  bufAlloc : UInt32 := 0
  fwdCnt : UInt32 := 0
  deriving DecidableEq, Repr

namespace Hdr

/-- The number in the `n` bytes from offset `o`. -/
def field (b : List UInt8) (o n : ℕ) : ℕ := leNat ((b.drop o).take n)

def parse (b : Packet) : Option Hdr :=
  if b.length < hdrLen then none
  else some
    { srcCid := UInt64.ofNat (field b 0 8)
      dstCid := UInt64.ofNat (field b 8 8)
      srcPort := UInt32.ofNat (field b 16 4)
      dstPort := UInt32.ofNat (field b 20 4)
      len := UInt32.ofNat (field b 24 4)
      typ := UInt16.ofNat (field b 28 2)
      op := UInt16.ofNat (field b 30 2)
      flags := UInt32.ofNat (field b 32 4)
      bufAlloc := UInt32.ofNat (field b 36 4)
      fwdCnt := UInt32.ofNat (field b 40 4) }

def toBytes (h : Hdr) : List UInt8 :=
  leBytes 8 h.srcCid.toNat ++ leBytes 8 h.dstCid.toNat ++ leBytes 4 h.srcPort.toNat ++
    leBytes 4 h.dstPort.toNat ++ leBytes 4 h.len.toNat ++ leBytes 2 h.typ.toNat ++
    leBytes 2 h.op.toNat ++ leBytes 4 h.flags.toNat ++ leBytes 4 h.bufAlloc.toNat ++
    leBytes 4 h.fwdCnt.toNat

@[simp] theorem length_toBytes (h : Hdr) : h.toBytes.length = hdrLen := by
  simp [toBytes, hdrLen]

/-- A field that stands after the first `xs.length` bytes. -/
theorem field_skip (xs ys : List UInt8) (o n : ℕ) :
    field (xs ++ ys) (xs.length + o) n = field ys o n := by
  simp [field, List.drop_append, List.drop_eq_nil_of_le]

theorem field_front (xs ys : List UInt8) : field (xs ++ ys) 0 xs.length = leNat xs := by
  simp [field]

/-- The fields of a list that begins with `leBytes w v`. -/
theorem field_leBytes_front (w v : ℕ) (ys : List UInt8) :
    field (leBytes w v ++ ys) 0 w = leNat (leBytes w v) := by
  have := field_front (leBytes w v) ys
  rwa [length_leBytes] at this

theorem field_leBytes_skip {w o : ℕ} (h : w ≤ o) (v n : ℕ) (ys : List UInt8) :
    field (leBytes w v ++ ys) o n = field ys (o - w) n := by
  have := field_skip (leBytes w v) ys (o - w) n
  rwa [length_leBytes, Nat.add_sub_cancel' h] at this

/-- **A header is read back** from the packet that begins with it. -/
theorem parse_toBytes (h : Hdr) (body : List UInt8) : parse (h.toBytes ++ body) = some h := by
  have h8 : ∀ v : UInt64, UInt64.ofNat (leNat (leBytes 8 v.toNat)) = v := fun v => by
    rw [leNat_leBytes v.toNat_lt, UInt64.ofNat_toNat]
  have h4 : ∀ v : UInt32, UInt32.ofNat (leNat (leBytes 4 v.toNat)) = v := fun v => by
    rw [leNat_leBytes v.toNat_lt, UInt32.ofNat_toNat]
  have h2 : ∀ v : UInt16, UInt16.ofNat (leNat (leBytes 2 v.toNat)) = v := fun v => by
    rw [leNat_leBytes v.toNat_lt, UInt16.ofNat_toNat]
  have hlen : ¬ (h.toBytes ++ body).length < hdrLen := by
    simp
  rw [parse, if_neg hlen]
  simp [toBytes, List.append_assoc, field_leBytes_front, field_leBytes_skip, h8, h4, h2]

end Hdr

/-! ### The packets the device makes -/

/-- The `OP_REQUEST` that offers a connection to the agent. -/
def requestPkt (hostPort : UInt32) : Packet :=
  ({ srcCid := hostCid, dstCid := guestCid, srcPort := hostPort, dstPort := agentPort,
     typ := typeStream, op := opRequest, bufAlloc := ourBufAlloc } : Hdr).toBytes

/-- A header-only packet to the agent that advertises `fwdCnt`. -/
def controlPkt (hostPort : UInt32) (op : UInt16) (flags fwdCnt : UInt32) : Packet :=
  ({ srcCid := hostCid, dstCid := guestCid, srcPort := hostPort, dstPort := agentPort,
     typ := typeStream, op, flags, bufAlloc := ourBufAlloc, fwdCnt } : Hdr).toBytes

/-- The `OP_RW` that carries `body`. -/
def rwPkt (hostPort : UInt32) (body : List UInt8) (fwdCnt : UInt32) : Packet :=
  ({ srcCid := hostCid, dstCid := guestCid, srcPort := hostPort, dstPort := agentPort,
     len := UInt32.ofNat body.length, typ := typeStream, op := opRw, bufAlloc := ourBufAlloc,
     fwdCnt } : Hdr).toBytes ++ body

/-- The `OP_RST` that answers a guest's `OP_REQUEST`. -/
def refusalPkt (h : Hdr) : Packet :=
  ({ srcCid := hostCid, dstCid := guestCid, srcPort := h.dstPort, dstPort := h.srcPort,
     typ := typeStream, op := opRst } : Hdr).toBytes

/-- A guest packet from the agent to port `p`. -/
def agentPkt (p : UInt32) (op : UInt16) (flags bufAlloc fwdCnt : UInt32) (body : List UInt8) :
    Packet :=
  ({ srcCid := guestCid, dstCid := hostCid, srcPort := agentPort, dstPort := p,
     len := UInt32.ofNat body.length, typ := typeStream, op, flags, bufAlloc, fwdCnt } :
       Hdr).toBytes
    ++ body

/-- The two packets `split_pending` makes of `pkt` for a buffer of `cap` bytes.
The source parses with `expect`; here a packet without a header stays whole. -/
def splitPending (pkt : Packet) (cap : ℕ) : Packet × Packet :=
  match Hdr.parse pkt with
  | none => (pkt, [])
  | some h =>
    let keep := cap - hdrLen
    ({ h with len := UInt32.ofNat keep }.toBytes ++ (pkt.take (hdrLen + keep)).drop hdrLen,
      { h with len := UInt32.ofNat (pkt.length - hdrLen - keep) }.toBytes ++
        pkt.drop (hdrLen + keep))

/-! ### Frames -/

/-- A packet whose header counts its payload. -/
structure Frame where
  hdr : Hdr
  body : List UInt8
  len_eq : hdr.len.toNat = body.length

namespace Frame

def bytes (f : Frame) : Packet := f.hdr.toBytes ++ f.body

variable (f : Frame)

@[simp] theorem length_bytes : f.bytes.length = hdrLen + f.body.length := by
  simp [bytes]

@[simp] theorem parse_bytes : Hdr.parse f.bytes = some f.hdr := Hdr.parse_toBytes f.hdr f.body

@[simp] theorem drop_bytes : f.bytes.drop hdrLen = f.body := by
  rw [bytes, ← f.hdr.length_toBytes, List.drop_left]

/-- The frame without a payload. -/
def control (h : Hdr) (hlen : h.len = 0) : Frame := ⟨h, [], by simp [hlen]⟩

theorem bytes_control (h : Hdr) (hlen : h.len = 0) : (control h hlen).bytes = h.toBytes :=
  List.append_nil _

/-- The frame with the header of `f` and part of its payload. -/
def withBody (body : List UInt8) (h : body.length ≤ f.body.length) : Frame where
  hdr := { f.hdr with len := UInt32.ofNat body.length }
  body := body
  len_eq := by
    have := f.len_eq
    have := f.hdr.len.toNat_lt
    simp
    omega

/-- **A cut frame is two frames**: same header but for the length, and the payload
is shared between them. -/
theorem splitPending_bytes {cap : ℕ} (hcap : hdrLen ≤ cap) (hlt : cap < f.bytes.length) :
    splitPending f.bytes cap =
      ((f.withBody (f.body.take (cap - hdrLen)) (by simp)).bytes,
        (f.withBody (f.body.drop (cap - hdrLen)) (by simp)).bytes) := by
  have hkeep : cap - hdrLen ≤ f.body.length := by
    simp at hlt
    omega
  have htake : (f.bytes.take (hdrLen + (cap - hdrLen))).drop hdrLen =
      f.body.take (cap - hdrLen) := by
    rw [List.drop_take, drop_bytes, Nat.add_sub_cancel_left]
  have hdrop : f.bytes.drop (hdrLen + (cap - hdrLen)) = f.body.drop (cap - hdrLen) := by
    rw [← List.drop_drop, drop_bytes]
  have hlen : f.bytes.length - hdrLen - (cap - hdrLen) = f.body.length - (cap - hdrLen) := by
    rw [length_bytes, Nat.add_sub_cancel_left]
  simp only [splitPending, parse_bytes, htake, hdrop, hlen]
  simp only [withBody, bytes, List.length_take, List.length_drop, Nat.min_eq_left hkeep]

end Frame

/-! ### Payloads -/

/-- The bytes `pkt` carries for port `p`. -/
def payload (p : UInt32) (pkt : Packet) : List UInt8 :=
  match Hdr.parse pkt with
  | some h => if h.op = opRw ∧ h.srcPort = p then pkt.drop hdrLen else []
  | none => []

/-- The bytes the packets carry for port `p`, in order. -/
def payloads (p : UInt32) (pkts : List Packet) : List UInt8 := pkts.flatMap (payload p)

@[simp] theorem payloads_nil (p : UInt32) : payloads p [] = [] := rfl

@[simp] theorem payloads_cons (p : UInt32) (pkt : Packet) (pkts : List Packet) :
    payloads p (pkt :: pkts) = payload p pkt ++ payloads p pkts := List.flatMap_cons

@[simp] theorem payloads_append (p : UInt32) (pkts pkts' : List Packet) :
    payloads p (pkts ++ pkts') = payloads p pkts ++ payloads p pkts' := List.flatMap_append

theorem payload_bytes (p : UInt32) (f : Frame) :
    payload p f.bytes = if f.hdr.op = opRw ∧ f.hdr.srcPort = p then f.body else [] := by
  rw [payload, f.parse_bytes, f.drop_bytes]

theorem payload_toBytes {p : UInt32} {h : Hdr} (hop : h.op ≠ opRw) : payload p h.toBytes = [] := by
  have := Hdr.parse_toBytes h []
  rw [List.append_nil] at this
  simp [payload, this, hop]

@[simp] theorem payload_requestPkt (p q : UInt32) : payload q (requestPkt p) = [] :=
  payload_toBytes (show opRequest ≠ opRw by decide)

theorem payload_controlPkt {p q : UInt32} {op : UInt16} (hop : op ≠ opRw) (flags fwd : UInt32) :
    payload q (controlPkt p op flags fwd) = [] := payload_toBytes hop

@[simp] theorem payload_refusalPkt (q : UInt32) (h : Hdr) : payload q (refusalPkt h) = [] :=
  payload_toBytes (show opRst ≠ opRw by decide)

theorem payload_rwPkt (p q : UInt32) (body : List UInt8) (fwd : UInt32) :
    payload q (rwPkt p body fwd) = if p = q then body else [] := by
  unfold payload rwPkt
  rw [Hdr.parse_toBytes]
  have hdrop : ∀ h : Hdr, (h.toBytes ++ body).drop hdrLen = body := fun h => by
    rw [← h.length_toBytes, List.drop_left]
  simp [hdrop]

theorem payload_splitPending (p : UInt32) {f : Frame} {cap : ℕ} (hcap : hdrLen ≤ cap)
    (hlt : cap < f.bytes.length) :
    payload p (splitPending f.bytes cap).1 ++ payload p (splitPending f.bytes cap).2 =
      payload p f.bytes := by
  rw [f.splitPending_bytes hcap hlt]
  simp only [payload_bytes, Frame.withBody]
  split
  · exact List.take_append_drop _ _
  · rfl
