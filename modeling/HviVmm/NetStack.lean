/-
The built-in network stack of virtio-net (`VirtioNet::handle_frame` and the packet
helpers in `devices::virtio::net`).

A guest on the built-in stack gets answers to ARP, ICMP echo, DHCP and DNS, built by hand
from the bytes of its frames; every IPv4 flow is captured.  Lengths are trusted as the
guest writes them and cut to 16 bits when they are written.

Every slice, index and store is checked here: `panicked` stands for the panic of an index
out of range, of a copy between slices of two lengths, and of a `u32` sum that overflows.  What the
host supplies, its resolver and `from_utf8_lossy`, is a parameter.  Lines printed to the console are
left out.

* `checksum16_eq` — the checksum is the complement of the folded sum;
* `handleFrame_total` — no frame makes the stack panic.
-/
import HviVmm.OnesComplement
import HviVmm.GatewayFrames
import HviVmm.TlsSni

open ByteCodec Checked SliceReads OnesComplement

/-! ### Addresses and captured flows -/

structure Ipv4Addr where
  a : UInt8
  b : UInt8
  c : UInt8
  d : UInt8
  deriving DecidableEq, Repr

namespace Ipv4Addr

def octets (ip : Ipv4Addr) : List UInt8 := [ip.a, ip.b, ip.c, ip.d]

def broadcast : Ipv4Addr := ⟨255, 255, 255, 255⟩

end Ipv4Addr

abbrev Mac := Vector UInt8 6

def ourMac : Mac := #v[0x52, 0x54, 0x00, 0x12, 0x34, 0x56]
def guestMac : Mac := #v[0x52, 0x54, 0x00, 0x12, 0x34, 0x57]
def guestIp : Ipv4Addr := ⟨10, 0, 2, 15⟩
def gwIp : Ipv4Addr := ⟨10, 0, 2, 2⟩
def dnsIp : Ipv4Addr := ⟨10, 0, 2, 3⟩

def ethArp : ℕ := 0x0806
def ethIpv4 : ℕ := 0x0800
def ipIcmp : UInt8 := 1
def ipTcp : UInt8 := 6
def ipUdp : UInt8 := 17

/-- One observed IPv4 flow (`CapturedEvent::NetFlow`). -/
structure NetFlow where
  proto : UInt8
  src : Ipv4Addr
  srcPort : ℕ
  dst : Ipv4Addr
  dstPort : ℕ
  bytes : ℕ
  dns : Option String := none
  sni : Option (List UInt8) := none
  deriving DecidableEq, Repr

/-- What the host does for the stack. -/
structure NetHost where
  /-- `String::from_utf8_lossy` -/
  lossy : List UInt8 → String
  /-- The first IPv4 address `to_socket_addrs` finds for a name. -/
  resolve : String → Option Ipv4Addr

/-! ### Packets -/

/-- The address at offset `i`, octet by octet. -/
def indexAddr (bs : List UInt8) (i : ℕ) : Checked Ipv4Addr := do
  let a ← index bs i
  let b ← index bs (i + 1)
  let c ← index bs (i + 2)
  let d ← index bs (i + 3)
  return ⟨a, b, c, d⟩

/-- A frame around a payload. -/
def ethFrame (dst src : Mac) (ethertype : ℕ) (payload : List UInt8) : List UInt8 :=
  dst.toList ++ src.toList ++ beBytes 2 ethertype ++ payload

/-- `sum += w`, in a `u32`. -/
def addU32 (sum w : ℕ) : Checked ℕ := if sum + w < 2 ^ 32 then done (sum + w) else panicked

/-- The loop of `checksum16` over the words, and the odd byte. -/
def sumWords : List UInt8 → ℕ → Checked ℕ
  | a :: b :: rest, sum => addU32 sum (beNat [a, b]) >>= sumWords rest
  | [a], sum => addU32 sum (a.toNat * 256)
  | [], sum => done sum

/-- The Internet checksum. -/
def checksum16 (data : List UInt8) : Checked ℕ := do
  let sum ← sumWords data 0
  return 65535 - foldCarry sum

/-- The header `ipv4_packet` sums, with a zero checksum. -/
def ipv4Header (src dst : Ipv4Addr) (proto : UInt8) (total : ℕ) : Checked (List UInt8) := do
  let h ← store (List.replicate 20 0) 0 0x45 -- version 4, IHL 5
  let h ← copyRange h 2 4 (beBytes 2 (total % 65536))
  let h ← store h 8 64 -- TTL
  let h ← store h 9 proto
  let h ← copyRange h 12 16 src.octets
  copyRange h 16 20 dst.octets

/-- A packet around a payload, without options. -/
def ipv4Packet (src dst : Ipv4Addr) (proto : UInt8) (payload : List UInt8) :
    Checked (List UInt8) := do
  let h ← ipv4Header src dst proto (20 + payload.length)
  let ck ← checksum16 h
  let h ← copyRange h 10 12 (beBytes 2 ck)
  return h ++ payload

/-- A datagram with a zero checksum. -/
def udpDatagram (srcPort dstPort : ℕ) (payload : List UInt8) : Checked (List UInt8) := do
  let u ← copyRange (List.replicate 8 0) 0 2 (beBytes 2 srcPort)
  let u ← copyRange u 2 4 (beBytes 2 dstPort)
  let u ← copyRange u 4 6 (beBytes 2 ((8 + payload.length) % 65536))
  return u ++ payload

/-- An IPv4 payload wrapped for the guest. -/
def ipv4ToGuest (mac : Mac) (src dst : Ipv4Addr) (proto : UInt8) (payload : List UInt8) :
    Checked (List UInt8) := do
  let ip ← ipv4Packet src dst proto payload
  return ethFrame mac ourMac ethIpv4 ip

/-! ### Answers -/

/-- Answers a request for the gateway's or the resolver's address. -/
def handleArp (arp : List UInt8) : Checked (List UInt8) := do
  ensure (decide (28 ≤ arp.length))
  let op ← indexU16 arp 6
  ensure (op == 1)
  let targetIp ← indexAddr arp 24
  ensure (targetIp == gwIp || targetIp == dnsIp)
  let senderMac ← indexRange arp 8 14
  let senderIp ← indexRange arp 14 18
  let a ← copyRange (List.replicate 28 0) 0 2 (beBytes 2 1)
  let a ← copyRange a 2 4 (beBytes 2 ethIpv4)
  let a ← store a 4 6
  let a ← store a 5 4
  let a ← copyRange a 6 8 (beBytes 2 2)
  let a ← copyRange a 8 14 ourMac.toList
  let a ← copyRange a 14 18 targetIp.octets
  let a ← copyRange a 18 24 senderMac
  let a ← copyRange a 24 28 senderIp
  -- `sender_mac.try_into().unwrap()`
  if h : senderMac.toArray.size = 6 then return ethFrame ⟨senderMac.toArray, h⟩ ourMac ethArp a
  else panicked

/-- The echo reply's message before its checksum: the type and the checksum are cleared. -/
def echoMsg (icmp : List UInt8) : Checked (List UInt8) := do
  let msg ← store icmp 0 0
  let msg ← store msg 2 0
  store msg 3 0

/-- Answers an echo request. -/
def handleIcmp (mac : Mac) (src dst : Ipv4Addr) (icmp : List UInt8) :
    Checked (NetFlow × List UInt8) := do
  ensure (decide (8 ≤ icmp.length))
  let kind ← index icmp 0
  ensure (kind == 8)
  let msg ← echoMsg icmp
  let ck ← checksum16 msg
  let msg ← copyRange msg 2 4 (beBytes 2 ck)
  let reply ← ipv4ToGuest mac dst src ipIcmp msg
  return ({ proto := ipIcmp, src, srcPort := 0, dst, dstPort := 0, bytes := icmp.length }, reply)

def dhcpCookie : List UInt8 := [0x63, 0x82, 0x53, 0x63]

/-- The loop over the DHCP options at offset `i`: the last message type found. -/
def dhcpLoop (bootp : List UInt8) (i : ℕ) (msgType : UInt8) : Checked UInt8 :=
  if i < bootp.length then do
    let code ← index bootp i
    if code = 255 then return msgType
    else if code = 0 then dhcpLoop bootp (i + 1) msgType
    else
      let len ← get bootp (i + 1)
      if i + 2 + len.toNat > bootp.length then return msgType
      else if code = 53 ∧ 1 ≤ len.toNat then
        let kind ← index bootp (i + 2)
        dhcpLoop bootp (i + 2 + len.toNat) kind
      else dhcpLoop bootp (i + 2 + len.toNat) msgType
  else done msgType
termination_by bootp.length - i

/-- DISCOVER is answered with OFFER, REQUEST with ACK. -/
def dhcpReplyType (msgType : UInt8) : Checked UInt8 :=
  if msgType = 1 then done 2 else if msgType = 3 then done 5 else refused

/-- The BOOTP reply: the transaction and the hardware address are the request's. -/
def dhcpReply (xid chaddr : List UInt8) (replyType : UInt8) : Checked (List UInt8) := do
  let r ← store (List.replicate 240 0) 0 2
  let r ← store r 1 1
  let r ← store r 2 6
  let r ← copyRange r 4 8 xid
  let r ← copyRange r 16 20 guestIp.octets
  let r ← copyRange r 20 24 gwIp.octets
  let r ← copyRange r 28 44 chaddr
  let r ← copyRange r 236 240 dhcpCookie
  return r ++ [53, 1, replyType] ++ [54, 4] ++ gwIp.octets ++ [51, 4] ++ beBytes 4 86400 ++
    [1, 4, 255, 255, 255, 0] ++ [3, 4] ++ gwIp.octets ++ [6, 4] ++ dnsIp.octets ++ [255]

/-- The offer or the lease, for a DHCP request. -/
def handleDhcp (mac : Mac) (bootp : List UInt8) : Checked (List UInt8) := do
  ensure (decide (240 ≤ bootp.length))
  let op ← index bootp 0
  ensure (op == 1)
  let cookie ← indexRange bootp 236 240
  ensure (cookie == dhcpCookie)
  let msgType ← dhcpLoop bootp 240 0
  let replyType ← dhcpReplyType msgType
  let xid ← indexRange bootp 4 8
  let chaddr ← indexRange bootp 28 44
  let r ← dhcpReply xid chaddr replyType
  let udp ← udpDatagram 67 68 r
  ipv4ToGuest mac gwIp .broadcast ipUdp udp

/-- The loop over the labels at offset `i`: the dotted name, and the offset after it. -/
def dnsLabels (host : NetHost) (msg : List UInt8) (i : ℕ) (name : String) : Checked (String × ℕ) :=
  if i < msg.length then do
    let len ← index msg i
    if len = 0 then return (name, i + 1)
    else if len &&& 0xc0 ≠ 0 then refused
    else
      let label ← getRange msg (i + 1) (i + 1 + len.toNat)
      let name := if name.isEmpty then name else name.push '.'
      dnsLabels host msg (i + 1 + len.toNat) (name ++ host.lossy label)
  else done (name, i)
termination_by msg.length - i

/-- The name at `off`, and the offset after the question's type and class. -/
def parseDnsName (host : NetHost) (msg : List UInt8) (off : ℕ) : Checked (String × ℕ) := do
  let (name, i) ← dnsLabels host msg off ""
  ensure (decide (i + 4 ≤ msg.length))
  return (name, i + 4)

/-- The answer record for an address. -/
def dnsAnswer (ip : Ipv4Addr) : List UInt8 :=
  [0xc0, 0x0c] ++ beBytes 2 1 ++ beBytes 2 1 ++ beBytes 4 300 ++ beBytes 2 4 ++ ip.octets

/-- The DNS reply: the query's id and question, and an answer if there is one. -/
def dnsReply (id question : List UInt8) (ip : Option Ipv4Addr) : List UInt8 :=
  id ++ beBytes 2 0x8180 ++ beBytes 2 1 ++ beBytes 2 (if ip.isSome then 1 else 0) ++ [0, 0, 0, 0] ++
    question ++ ip.elim [] dnsAnswer

/-- The answer to a DNS query. -/
def handleDns (host : NetHost) (mac : Mac) (clientPort : ℕ) (dns : List UInt8) :
    Checked (NetFlow × List UInt8) := do
  ensure (decide (12 ≤ dns.length))
  let (name, qend) ← parseDnsName host dns 12
  let id ← indexRange dns 0 2
  let question ← indexRange dns 12 qend
  let udp ← udpDatagram 53 clientPort (dnsReply id question (host.resolve name))
  let reply ← ipv4ToGuest mac dnsIp guestIp ipUdp udp
  return ({ proto := ipUdp, src := guestIp, srcPort := clientPort, dst := dnsIp, dstPort := 53
            bytes := dns.length + 8, dns := some name }, reply)

/-- What a handler that captures only when it replies leaves behind. -/
def withFlow : Option (NetFlow × List UInt8) → List NetFlow × Option (List UInt8)
  | some (flow, reply) => ([flow], some reply)
  | none => ([], none)

/-- A UDP packet from `src` to `dst`. -/
def handleUdp (host : NetHost) (mac : Mac) (src dst : Ipv4Addr) (payload : List UInt8) :
    Checked (List NetFlow × Option (List UInt8)) := do
  let sport ← indexU16 payload 0
  let dport ← indexU16 payload 2
  let data ← indexFrom payload 8
  let flow : NetFlow :=
    { proto := ipUdp, src, srcPort := sport, dst, dstPort := dport, bytes := payload.length }
  if dport = 67 then
    let reply ← (handleDhcp mac data).attempt
    return ([flow], reply)
  else if dport = 53 ∧ dst = dnsIp then
    let handled ← (handleDns host mac sport data).attempt
    return withFlow handled
  else return ([flow], none)

/-- A TCP packet is observed, and has no answer. -/
def handleTcp (src dst : Ipv4Addr) (payload : List UInt8) :
    Checked (List NetFlow × Option (List UInt8)) := do
  let sport ← indexU16 payload 0
  let dport ← indexU16 payload 2
  return ([{ proto := ipTcp, src, srcPort := sport, dst, dstPort := dport,
             bytes := payload.length }], none)

/-- The header length in bytes, as the first byte of the packet says. -/
def ihlOf (b : UInt8) : ℕ := (b &&& 0x0f).toNat * 4

/-- What a packet of the guest is observed and answered as. -/
def handleIpv4 (host : NetHost) (mac : Mac) (ip : List UInt8) :
    Checked (List NetFlow × Option (List UInt8)) := do
  if ip.length < 20 then return ([], none)
  else
    let first ← index ip 0
    let proto ← index ip 9
    let src ← indexAddr ip 12
    let dst ← indexAddr ip 16
    let payload ← (getFrom ip (ihlOf first)).attempt
    match payload with
    | none => return ([], none)
    | some payload =>
      if proto = ipIcmp then
        let handled ← (handleIcmp mac src dst payload).attempt
        return withFlow handled
      else if proto = ipUdp ∧ 8 ≤ payload.length then handleUdp host mac src dst payload
      else if proto = ipTcp ∧ 4 ≤ payload.length then handleTcp src dst payload
      else return ([], none)

/-- The stack: captures the flow of a frame, and returns the frames that answer it. -/
def handleFrame (host : NetHost) (mac : Mac) (frame : List UInt8) :
    Checked (List NetFlow × List (List UInt8)) := do
  if frame.length < 14 then return ([], [])
  else
    let ethertype ← indexU16 frame 12
    let payload ← indexFrom frame 14
    if ethertype = ethArp then
      let reply ← (handleArp payload).attempt
      return ([], reply.toList)
    else if ethertype = ethIpv4 then
      let (flows, reply) ← handleIpv4 host mac payload
      return (flows, reply.toList)
    else return ([], [])

/-- The flow of a frame that goes to the gateway or the tap, with the server name of a TLS
ClientHello (`observe_tx`). -/
def observeTx (frame : List UInt8) : Checked (List NetFlow) := do
  if frame.length < 14 then return []
  else
    let ethertype ← indexU16 frame 12
    let ip ← indexFrom frame 14
    if ethertype ≠ ethIpv4 ∨ ip.length < 20 then return []
    else
      let first ← index ip 0
      let proto ← index ip 9
      let src ← indexAddr ip 12
      let dst ← indexAddr ip 16
      let l4 ← (getFrom ip (ihlOf first)).attempt
      match l4 with
      | none => return []
      | some l4 =>
        if proto = ipTcp ∧ 20 ≤ l4.length then
          let sport ← indexU16 l4 0
          let dport ← indexU16 l4 2
          let offset ← index l4 12
          let sni ← (getFrom l4 ((offset >>> 4).toNat * 4) >>= parseTlsSni).attempt
          return [{ proto, src, srcPort := sport, dst, dstPort := dport, bytes := l4.length, sni }]
        else if proto = ipUdp ∧ 8 ≤ l4.length then
          let sport ← indexU16 l4 0
          let dport ← indexU16 l4 2
          return [{ proto := ipUdp, src, srcPort := sport, dst, dstPort := dport
                    bytes := l4.length }]
        else if proto = ipIcmp then
          return [{ proto := ipIcmp, src, srcPort := 0, dst, dstPort := 0, bytes := l4.length }]
        else return []

/-! ### No panic -/

theorem sumWords_eq (data : List UInt8) {sum : ℕ} (h : sum + wordSum data < 2 ^ 32) :
    sumWords data sum = done (sum + wordSum data) := by
  induction data using wordSum.induct generalizing sum with
  | case1 a b rest ih =>
    rw [wordSum] at h
    rw [sumWords, addU32, if_pos (by omega), done_bind, ih (by omega), wordSum, Nat.add_assoc]
  | case2 a =>
    rw [wordSum] at h
    rw [sumWords, addU32, if_pos h, wordSum]
  | case3 => rw [sumWords, wordSum, Nat.add_zero]

/-- **The checksum** of up to 128 KiB is the complement of the folded sum. -/
theorem checksum16_eq {data : List UInt8} (h : data.length < 131071) :
    checksum16 data = done (65535 - foldCarry (wordSum data)) := by
  have hle := wordSum_le data
  have hsum : sumWords data 0 = done (wordSum data) := by
    rw [sumWords_eq data (by omega), Nat.zero_add]
  rw [checksum16, hsum, done_bind, pure_eq]

theorem checksum16_total {data : List UInt8} (h : data.length < 131071) :
    (checksum16 data).Total := by
  rw [checksum16_eq h]
  exact .done _

theorem ipv4Header_fills (src dst : Ipv4Addr) (proto : UInt8) (total : ℕ) :
    Fills 20 (ipv4Header src dst proto total) := by
  refine (store_fills rfl (by decide)).bind fun _ h => ?_
  refine (copyRange_fills h (by decide) (by decide) rfl).bind fun _ h => ?_
  refine (store_fills h (by decide)).bind fun _ h => ?_
  refine (store_fills h (by decide)).bind fun _ h => ?_
  refine (copyRange_fills h (by decide) (by decide) rfl).bind fun _ h => ?_
  exact copyRange_fills h (by decide) (by decide) rfl

theorem ipv4ToGuest_total (mac : Mac) (src dst : Ipv4Addr) (proto : UInt8) (payload : List UInt8) :
    (ipv4ToGuest mac src dst proto payload).Total := by
  refine .bind ?_ fun _ _ => .done _
  refine (ipv4Header_fills _ _ _ _).total_bind fun h hlen => ?_
  refine (checksum16_total (by omega)).bind fun ck _ => ?_
  exact (copyRange_fills hlen (by decide) (by decide) rfl).total_bind fun _ _ => .done _

theorem udpDatagram_total (srcPort dstPort : ℕ) (payload : List UInt8) :
    (udpDatagram srcPort dstPort payload).Total := by
  refine (copyRange_fills (n := 8) rfl (by decide) (by decide) rfl).total_bind fun _ h => ?_
  refine (copyRange_fills h (by decide) (by decide) rfl).total_bind fun _ h => ?_
  exact (copyRange_fills h (by decide) (by decide) rfl).total_bind fun _ _ => .done _

theorem indexAddr_total {bs : List UInt8} {i : ℕ} (h : i + 3 < bs.length) :
    (indexAddr bs i).Total :=
  (index_total (by omega)).bind fun _ _ => (index_total (by omega)).bind fun _ _ =>
    (index_total (by omega)).bind fun _ _ => (index_total h).bind fun _ _ => .done _

theorem handleArp_total (arp : List UInt8) : (handleArp arp).Total := by
  refine .ensure_bind fun hlen => ?_
  have hlen : 28 ≤ arp.length := of_decide_eq_true hlen
  refine (indexU16_total (by omega)).bind fun _ _ => .ensure_bind fun _ => ?_
  refine (indexAddr_total (by omega)).bind fun targetIp _ => .ensure_bind fun _ => ?_
  refine (indexRange_total (by decide) (by omega)).bind fun senderMac hmac => ?_
  refine (indexRange_total (by decide) (by omega)).bind fun senderIp hip => ?_
  have hsix : senderMac.length = 6 := length_indexRange hmac
  have hfour : senderIp.length = 4 := length_indexRange hip
  -- the reply's own 28 bytes, field by field
  refine (copyRange_fills (n := 28) rfl (by decide) (by decide) rfl).total_bind fun _ h => ?_
  refine (copyRange_fills h (by decide) (by decide) rfl).total_bind fun _ h => ?_
  refine (store_fills h (by decide)).total_bind fun _ h => ?_
  refine (store_fills h (by decide)).total_bind fun _ h => ?_
  refine (copyRange_fills h (by decide) (by decide) rfl).total_bind fun _ h => ?_
  refine (copyRange_fills h (by decide) (by decide) rfl).total_bind fun _ h => ?_
  refine (copyRange_fills h (by decide) (by decide) rfl).total_bind fun _ h => ?_
  refine (copyRange_fills h (by decide) (by decide) hsix).total_bind fun _ h => ?_
  refine (copyRange_fills h (by decide) (by decide) hfour).total_bind fun _ _ => ?_
  rw [dif_pos (show senderMac.toArray.size = 6 from hsix)]
  exact .done _

/-- A message of eight bytes has the four the reply stores into. -/
theorem echoMsg_fills {icmp : List UInt8} (h : 8 ≤ icmp.length) :
    Fills icmp.length (echoMsg icmp) := by
  refine (store_fills rfl (by omega)).bind fun _ h => ?_
  refine (store_fills h (by omega)).bind fun _ h => ?_
  exact store_fills h (by omega)

theorem handleIcmp_total (mac : Mac) (src dst : Ipv4Addr) {icmp : List UInt8}
    (h : icmp.length < 131071) : (handleIcmp mac src dst icmp).Total := by
  refine .ensure_bind fun hlen => ?_
  have hlen : 8 ≤ icmp.length := of_decide_eq_true hlen
  refine (index_total (by omega)).bind fun _ _ => .ensure_bind fun _ => ?_
  refine (echoMsg_fills hlen).total_bind fun msg hmsg => ?_
  refine (checksum16_total (by omega)).bind fun ck _ => ?_
  refine (copyRange_fills hmsg (by decide) (by omega) rfl).total_bind fun _ _ => ?_
  exact (ipv4ToGuest_total _ _ _ _ _).bind fun _ _ => .done _

theorem dhcpLoop_total (bootp : List UInt8) (i : ℕ) (msgType : UInt8) :
    (dhcpLoop bootp i msgType).Total := by
  -- the offset goes up by one at least
  induction hleft : bootp.length - i using Nat.strong_induction_on generalizing i msgType with
  | _ left ih =>
    rw [dhcpLoop]
    split
    · next hlt =>
      refine (index_total hlt).bind fun code _ => ?_
      split
      · exact .done _
      · split
        · exact ih _ (by omega) _ _ rfl
        · refine (get_total _ _).bind fun len _ => ?_
          split
          · exact .done _
          · next hin =>
            split
            · exact (index_total (by omega)).bind fun _ _ => ih _ (by omega) _ _ rfl
            · exact ih _ (by omega) _ _ rfl
    · exact .done _

theorem dhcpReply_total {xid chaddr : List UInt8} (hxid : xid.length = 4)
    (hchaddr : chaddr.length = 16) (replyType : UInt8) :
    (dhcpReply xid chaddr replyType).Total := by
  refine (store_fills (n := 240) (List.length_replicate ..) (by decide)).total_bind fun _ h => ?_
  refine (store_fills h (by decide)).total_bind fun _ h => ?_
  refine (store_fills h (by decide)).total_bind fun _ h => ?_
  refine (copyRange_fills h (by decide) (by decide) hxid).total_bind fun _ h => ?_
  refine (copyRange_fills h (by decide) (by decide) rfl).total_bind fun _ h => ?_
  refine (copyRange_fills h (by decide) (by decide) rfl).total_bind fun _ h => ?_
  refine (copyRange_fills h (by decide) (by decide) hchaddr).total_bind fun _ h => ?_
  exact (copyRange_fills h (by decide) (by decide) rfl).total_bind fun _ _ => .done _

theorem handleDhcp_total (mac : Mac) (bootp : List UInt8) : (handleDhcp mac bootp).Total := by
  refine .ensure_bind fun hlen => ?_
  have hlen : 240 ≤ bootp.length := of_decide_eq_true hlen
  refine (index_total (by omega)).bind fun _ _ => .ensure_bind fun _ => ?_
  refine (indexRange_total (by decide) (by omega)).bind fun _ _ => .ensure_bind fun _ => ?_
  refine (dhcpLoop_total _ _ _).bind fun msgType _ => ?_
  have htype : (dhcpReplyType msgType).Total := by
    unfold dhcpReplyType
    split
    · exact .done _
    · split
      · exact .done _
      · exact .refused
  refine htype.bind fun _ _ => ?_
  refine (indexRange_total (by decide) (by omega)).bind fun xid hxid => ?_
  refine (indexRange_total (by decide) (by omega)).bind fun chaddr hchaddr => ?_
  have hreply := dhcpReply_total (length_indexRange hxid) (length_indexRange hchaddr)
  refine (hreply _).bind fun _ _ => ?_
  exact (udpDatagram_total _ _ _).bind fun _ _ => ipv4ToGuest_total _ _ _ _ _

theorem dnsLabels_total (host : NetHost) (msg : List UInt8) (i : ℕ) (name : String) :
    (dnsLabels host msg i name).Total := by
  induction hleft : msg.length - i using Nat.strong_induction_on generalizing i name with
  | _ left ih =>
    rw [dnsLabels]
    split
    · next hlt =>
      refine (index_total hlt).bind fun len _ => ?_
      split
      · exact .done _
      · split
        · exact .refused
        · exact (getRange_total _ _ _).bind fun _ _ => ih _ (by omega) _ _ rfl
    · exact .done _

/-- The offset after a name is past where it starts. -/
theorem dnsLabels_le {host : NetHost} {msg : List UInt8} {i j : ℕ} {name name' : String}
    (h : dnsLabels host msg i name = done (name', j)) : i ≤ j := by
  induction hleft : msg.length - i using Nat.strong_induction_on generalizing i name with
  | _ left ih =>
    rw [dnsLabels] at h
    split at h
    · obtain ⟨len, -, h⟩ := bind_eq_done.mp h
      split at h
      · cases h
        exact Nat.le_succ _
      · split at h
        · cases h
        · obtain ⟨label, -, h⟩ := bind_eq_done.mp h
          have hle := ih _ (by omega) h rfl
          omega
    · cases h
      exact Nat.le_refl _

theorem handleDns_total (host : NetHost) (mac : Mac) (clientPort : ℕ) (dns : List UInt8) :
    (handleDns host mac clientPort dns).Total := by
  refine .ensure_bind fun hlen => ?_
  have hlen : 12 ≤ dns.length := of_decide_eq_true hlen
  have hparse : (parseDnsName host dns 12).Total :=
    (dnsLabels_total _ _ _ _).bind fun _ _ => .ensure_bind fun _ => .done _
  refine hparse.bind fun r hr => ?_
  -- the end of the question is inside the message
  have hend : 12 ≤ r.2 ∧ r.2 ≤ dns.length := by
    obtain ⟨r', hr', hr⟩ := bind_eq_done.mp hr
    have hle := dnsLabels_le hr'
    obtain ⟨_, hin, hr⟩ := bind_eq_done.mp hr
    have hin := of_decide_eq_true (ensure_eq_done.mp hin)
    cases hr
    exact ⟨by omega, hin⟩
  refine (indexRange_total (by decide) (by omega)).bind fun _ _ => ?_
  refine (indexRange_total hend.1 hend.2).bind fun _ _ => ?_
  refine (udpDatagram_total _ _ _).bind fun _ _ => ?_
  exact (ipv4ToGuest_total _ _ _ _ _).bind fun _ _ => .done _

theorem handleUdp_total (host : NetHost) (mac : Mac) (src dst : Ipv4Addr) {payload : List UInt8}
    (h : 8 ≤ payload.length) : (handleUdp host mac src dst payload).Total := by
  refine (indexU16_total (by omega)).bind fun _ _ => ?_
  refine (indexU16_total (by omega)).bind fun dport _ => ?_
  refine (indexFrom_total h).bind fun data _ => ?_
  simp only
  split
  · exact (handleDhcp_total _ _).attempt.bind fun _ _ => .done _
  · split
    · exact (handleDns_total _ _ _ _).attempt.bind fun _ _ => .done _
    · exact .done _

theorem handleIpv4_total (host : NetHost) (mac : Mac) {ip : List UInt8} (h : ip.length < 131071) :
    (handleIpv4 host mac ip).Total := by
  unfold handleIpv4
  split
  · exact .done _
  · refine (index_total (by omega)).bind fun first _ => ?_
    refine (index_total (by omega)).bind fun proto _ => ?_
    refine (indexAddr_total (by omega)).bind fun src _ => ?_
    refine (indexAddr_total (by omega)).bind fun dst _ => ?_
    refine (getFrom_total _ _).attempt.bind fun payload hpayload => ?_
    split
    · exact .done _
    · next payload =>
      have hshort : payload.length < 131071 := by
        rcases attempt_eq_done hpayload with ⟨l4, hl4, heq⟩ | ⟨-, heq⟩
        · cases heq
          obtain ⟨-, rfl⟩ := getFrom_eq_done hl4
          rw [List.length_drop]
          omega
        · cases heq
      split
      · exact (handleIcmp_total _ _ _ hshort).attempt.bind fun _ _ => .done _
      · split
        · next hudp => exact handleUdp_total _ _ _ _ hudp.2
        · split
          · next htcp =>
            exact (indexU16_total (by omega)).bind fun _ _ =>
              (indexU16_total (by omega)).bind fun _ _ => .done _
          · exact .done _

/-- **No frame makes the stack panic.** -/
theorem handleFrame_total (host : NetHost) (mac : Mac) {frame : List UInt8}
    (h : frame.length ≤ maxFrameLen) : (handleFrame host mac frame).Total := by
  simp only [maxFrameLen] at h
  unfold handleFrame
  split
  · exact .done _
  · refine (indexU16_total (by omega)).bind fun ethertype _ => ?_
    refine (indexFrom_total (by omega)).bind fun payload hpayload => ?_
    split
    · exact (handleArp_total _).attempt.bind fun _ _ => .done _
    · split
      · have hshort : payload.length < 131071 := by
          obtain ⟨-, rfl⟩ := indexFrom_eq_done hpayload
          rw [List.length_drop]
          omega
        exact (handleIpv4_total _ _ hshort).bind fun _ _ => .done _
      · exact .done _

/-- A frame of 60 bytes that says it is IPv4 and stops where its header would. -/
theorem handleFrame_total_short :
    (handleFrame ⟨fun _ => "", fun _ => none⟩ guestMac
      (List.replicate 12 0 ++ [8, 0, 0x4f] ++ List.replicate 45 0)).Total :=
  handleFrame_total _ guestMac (by decide)

theorem observeTx_total (frame : List UInt8) : (observeTx frame).Total := by
  unfold observeTx
  split
  · exact .done _
  · refine (indexU16_total (by omega)).bind fun ethertype _ => ?_
    refine (indexFrom_total (by omega)).bind fun ip _ => ?_
    split
    · exact .done _
    · next hip =>
      rw [not_or, Nat.not_lt] at hip
      refine (index_total (by omega)).bind fun first _ => ?_
      refine (index_total (by omega)).bind fun proto _ => ?_
      refine (indexAddr_total (by omega)).bind fun src _ => ?_
      refine (indexAddr_total (by omega)).bind fun dst _ => ?_
      refine (getFrom_total _ _).attempt.bind fun l4 _ => ?_
      split
      · exact .done _
      · split
        · refine (indexU16_total (by omega)).bind fun _ _ => ?_
          refine (indexU16_total (by omega)).bind fun _ _ => ?_
          refine (index_total (by omega)).bind fun offset _ => ?_
          exact .bind (.attempt (.bind (getFrom_total _ _) fun hello _ => parseTlsSni_total hello))
            fun _ _ => .done _
        · split
          · exact (indexU16_total (by omega)).bind fun _ _ =>
              (indexU16_total (by omega)).bind fun _ _ => .done _
          · split
            · exact .done _
            · exact .done _

/-! ### The stack does not give up -/

theorem indexAddr_certain (bs : List UInt8) (i : ℕ) : (indexAddr bs i).Certain :=
  (index_certain _ _).bind fun _ => (index_certain _ _).bind fun _ =>
    (index_certain _ _).bind fun _ => (index_certain _ _).bind fun _ => .done _

theorem observeTx_value (frame : List UInt8) : ∃ flows, observeTx frame = done flows := by
  refine (observeTx_total frame).value ?_
  unfold observeTx
  split
  · exact .done _
  · refine (indexU16_certain _ _).bind fun ethertype => (indexFrom_certain _ _).bind fun ip => ?_
    split
    · exact .done _
    · refine (index_certain _ _).bind fun first => (index_certain _ _).bind fun proto => ?_
      refine (indexAddr_certain _ _).bind fun src => (indexAddr_certain _ _).bind fun dst => ?_
      refine (Certain.attempt _).bind fun l4 => ?_
      split
      · exact .done _
      · split
        · refine (indexU16_certain _ _).bind fun _ => (indexU16_certain _ _).bind fun _ => ?_
          exact (index_certain _ _).bind fun offset => (Certain.attempt _).bind fun _ => .done _
        · split
          · exact (indexU16_certain _ _).bind fun _ => (indexU16_certain _ _).bind fun _ => .done _
          · split
            · exact .done _
            · exact .done _
