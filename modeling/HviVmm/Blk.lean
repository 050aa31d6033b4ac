/-
The virtio-blk device (`devices::virtio::block`).

`VirtioBlk` serves a backing file to a guest over one virtqueue.  A notify walks
every published chain, runs its request and completes its head in the used ring.

The file is its bytes and a schedule of faults: a positioned read or write, and a
`sync_data`, fails where the schedule says so and then changes nothing.  A write
past the end of the file extends it, as `pwrite` does; that it never happens is
proved in `BlkContainment`.

The request ledger is kept; the live sink, the per-request trace, the disk id and
the interrupt line carry nothing back into the device and are left out.
-/
import HviVmm.Chains
import HviVmm.Mmio

open ByteCodec ByteStore
open scoped QueueIndex

def virtioBlkTIn : UInt32 := 0
def virtioBlkTOut : UInt32 := 1
def virtioBlkTFlush : UInt32 := 4
def virtioBlkTGetId : UInt32 := 8

def virtioBlkSOk : UInt8 := 0
def virtioBlkSIoerr : UInt8 := 1
def virtioBlkSUnsupp : UInt8 := 2

/-- Length of the serial `GET_ID` returns. -/
def serialLen : ℕ := 20

/-- Bytes in a sector. -/
def sectorLen : UInt64 := 512

/-- `u64::checked_mul`. -/
def checkedMul (a b : UInt64) : Option UInt64 :=
  if a.toNat * b.toNat < 2 ^ 64 then some (a * b) else none

/-- `u64::checked_add`. -/
def checkedAdd (a b : UInt64) : Option UInt64 :=
  if a.toNat + b.toNat < 2 ^ 64 then some (a + b) else none

theorem checkedMul_eq_some {a b c : UInt64} :
    checkedMul a b = some c ↔ c.toNat = a.toNat * b.toNat := by
  have hc := c.toNat_lt
  simp only [checkedMul, Option.ite_none_right_eq_some, Option.some.injEq, ← UInt64.toNat_inj,
    UInt64.toNat_mul]
  constructor
  · rintro ⟨hlt, h⟩
    rw [← h, Nat.mod_eq_of_lt hlt]
  · intro h
    have hlt : a.toNat * b.toNat < 2 ^ 64 := h ▸ hc
    exact ⟨hlt, by rw [h, Nat.mod_eq_of_lt hlt]⟩

theorem checkedAdd_eq_some {a b c : UInt64} :
    checkedAdd a b = some c ↔ c.toNat = a.toNat + b.toNat := by
  have hc := c.toNat_lt
  simp only [checkedAdd, Option.ite_none_right_eq_some, Option.some.injEq, ← UInt64.toNat_inj,
    UInt64.toNat_add]
  omega

/-! ### The backing file -/

/-- The backing file.  `faults` and `syncFaults` say which of the calls to come
fail; past their end every call succeeds. -/
structure HostFile where
  bytes : List UInt8
  faults : List Bool := []
  syncFaults : List Bool := []
  deriving DecidableEq, Repr

namespace HostFile

/-- `read_exact_at`: fails at a fault and when the file ends first. -/
def readExactAt (f : HostFile) (n base : ℕ) : Option (List UInt8) × HostFile :=
  if n = 0 then (some [], f)
  else
    let f' := { f with faults := f.faults.tail }
    if f.faults.head?.getD false then (none, f')
    else if base + n ≤ f.bytes.length then (some ((f.bytes.drop base).take n), f')
    else (none, f')

/-- The bytes after a write at `base`; a gap before it is zero. -/
def splice (bytes : List UInt8) (base : ℕ) (buf : List UInt8) : List UInt8 :=
  bytes.take base ++ List.replicate (base - bytes.length) 0 ++ buf ++
    bytes.drop (base + buf.length)

/-- `write_all_at`. -/
def writeAllAt (f : HostFile) (buf : List UInt8) (base : ℕ) : Bool × HostFile :=
  if buf = [] then (true, f)
  else
    let f' := { f with faults := f.faults.tail }
    if f.faults.head?.getD false then (false, f')
    else (true, { f' with bytes := splice f.bytes base buf })

/-- `sync_data` -/
def syncData (f : HostFile) : Bool × HostFile :=
  (!f.syncFaults.head?.getD false, { f with syncFaults := f.syncFaults.tail })

end HostFile

/-! ### The device -/

/-- A request the ledger records. -/
structure CapturedBlock where
  disk : String
  lba : UInt64
  len : UInt64
  write : Bool
  deriving DecidableEq, Repr

/-- Why a request failed. -/
inductive BlkError where
  | sectorOverflows
  | lengthOverflows
  | pastCapacity
  | ram
  | io
  deriving DecidableEq, Repr

/-- The block device. -/
structure VirtioBlk where
  file : HostFile
  capacitySectors : UInt64
  transport : Transport 1 := {}
  readOnly : Bool
  serial : Vector UInt8 serialLen
  serialText : String
  events : List CapturedBlock := []

/-- What a request leaves behind: its result, the device and guest memory. -/
abbrev BlkResult (α : Type) := Except BlkError α × VirtioBlk × GuestRam

/-- Writes `src` across `segs`, each up to its length, and returns how many bytes
were written, counted in a `u32`. -/
def scatterSegs (mem : GuestRam) : List Seg → List UInt8 → UInt32 →
    Except BlkError UInt32 × GuestRam
  | [], _, written => (.ok written, mem)
  | (addr, len) :: segs, src, written =>
    let n := min len.toNat src.length
    match mem.write addr (src.take n) with
    | none => (.error .ram, mem)
    | some mem => scatterSegs mem segs (src.drop n) (written + UInt32.ofNat n)

/-- Reads `segs` into one buffer. -/
def gatherSegs (mem : GuestRam) : List Seg → Option (List UInt8)
  | [] => some []
  | (addr, len) :: segs => do
    let part ← mem.read addr len.toNat
    let rest ← gatherSegs mem segs
    some (part ++ rest)

/-- What the data part of a request hands on: the status, the bytes the device
wrote and the bytes transferred. -/
structure Transfer where
  status : UInt8
  deviceWritten : UInt32 := 0
  dataBytes : UInt64 := 0

namespace VirtioBlk

/-- Opens a file as the backing disk; `none` when the serial is too long. -/
def openAs (file : HostFile) (readOnly : Bool) (serial : String) : Option VirtioBlk :=
  let text := serial.toUTF8.data.toList
  if text.length > serialLen then none
  else some
    { file, readOnly
      capacitySectors := UInt64.ofNat file.bytes.length / sectorLen
      serial := Vector.ofFn fun i => text.getD i 0
      serialText := serial }

/-- The device's one queue. -/
def queue (d : VirtioBlk) : Queue := d.transport.queues 0

/-- Byte offset of `sector`, once the whole access falls inside the capacity. -/
def byteRange (d : VirtioBlk) (sector len : UInt64) : Except BlkError UInt64 :=
  match checkedMul sector sectorLen with
  | none => .error .sectorOverflows
  | some base =>
    match checkedAdd base len with
    | none => .error .lengthOverflows
    | some fin =>
      if fin > d.capacitySectors * sectorLen then .error .pastCapacity else .ok base

/-- `VIRTIO_BLK_T_IN`: one positioned read, scattered over `segs`. -/
def readRequest (d : VirtioBlk) (mem : GuestRam) (sector : UInt64) (segs : List Seg) :
    BlkResult Transfer :=
  match d.byteRange sector (UInt64.ofNat (totalLen segs)) with
  | .error e => (.error e, d, mem)
  | .ok base =>
    let got := d.file.readExactAt (totalLen segs) base.toNat
    let d := { d with file := got.2 }
    match got.1 with
    | none => (.error .io, d, mem)
    | some buf =>
      let sent := scatterSegs mem segs buf 0
      match sent.1 with
      | .error e => (.error e, d, sent.2)
      | .ok n => (.ok ⟨virtioBlkSOk, n, UInt64.ofNat (totalLen segs)⟩, d, sent.2)

/-- `VIRTIO_BLK_T_OUT`: `segs` gathered into one positioned write. -/
def writeRequest (d : VirtioBlk) (mem : GuestRam) (sector : UInt64) (segs : List Seg) :
    BlkResult Transfer :=
  match d.byteRange sector (UInt64.ofNat (totalLen segs)) with
  | .error e => (.error e, d, mem)
  | .ok base =>
    match gatherSegs mem segs with
    | none => (.error .ram, d, mem)
    | some buf =>
      let put := d.file.writeAllAt buf base.toNat
      let d := { d with file := put.2 }
      if put.1 then (.ok ⟨virtioBlkSOk, 0, UInt64.ofNat (totalLen segs)⟩, d, mem)
      else (.error .io, d, mem)

/-- FLUSH. -/
def flushRequest (d : VirtioBlk) (mem : GuestRam) : BlkResult Transfer :=
  let synced := d.file.syncData
  let d := { d with file := synced.2 }
  if synced.1 then (.ok ⟨virtioBlkSOk, 0, 0⟩, d, mem) else (.error .io, d, mem)

/-- `VIRTIO_BLK_T_GET_ID`: the serial, up to the length of `segs`. -/
def getIdRequest (d : VirtioBlk) (mem : GuestRam) (segs : List Seg) : BlkResult Transfer :=
  let sent := scatterSegs mem segs d.serial.toList 0
  match sent.1 with
  | .error e => (.error e, d, sent.2)
  | .ok n => (.ok ⟨virtioBlkSOk, n, 0⟩, d, sent.2)

/-- The `match` on the request type. -/
def transferData (d : VirtioBlk) (mem : GuestRam) (typ : UInt32) (sector : UInt64)
    (outs ins : List Seg) : BlkResult Transfer :=
  if typ = virtioBlkTIn then d.readRequest mem sector ins
  else if typ = virtioBlkTOut ∧ d.readOnly then (.ok ⟨virtioBlkSIoerr, 0, 0⟩, d, mem)
  else if typ = virtioBlkTFlush ∧ d.readOnly then (.ok ⟨virtioBlkSOk, 0, 0⟩, d, mem)
  else if typ = virtioBlkTOut then d.writeRequest mem sector outs
  else if typ = virtioBlkTFlush then d.flushRequest mem
  else if typ = virtioBlkTGetId then d.getIdRequest mem ins
  else (.ok ⟨virtioBlkSUnsupp, 0, 0⟩, d, mem)

/-- Records a read or write that went through. -/
def capture (d : VirtioBlk) (typ : UInt32) (sector : UInt64) (t : Transfer) : VirtioBlk :=
  if t.status = virtioBlkSOk ∧ (typ = virtioBlkTIn ∨ typ = virtioBlkTOut) then
    { d with events := d.events ++ [⟨d.serialText, sector, t.dataBytes, typ == virtioBlkTOut⟩] }
  else d

/-- Stores the status byte and counts it. -/
def finishRequest (d : VirtioBlk) (mem : GuestRam) (typ : UInt32) (sector : UInt64)
    (saddr : UInt64) (t : Transfer) : BlkResult UInt32 :=
  match mem.writeU8 saddr t.status with
  | none => (.error .ram, d, mem)
  | some mem => (.ok (t.deviceWritten + 1), d.capture typ sector t, mem)

/-- Runs one request: the header at `haddr`, which is the first readable segment,
the readable segments `outs` after it, the writable segments `ins` before the last
one, and the status byte at `saddr`, which is the last one. -/
def handleRequest (d : VirtioBlk) (mem : GuestRam) (haddr : UInt64) (outs ins : List Seg)
    (saddr : UInt64) : BlkResult UInt32 :=
  match mem.readU32 haddr, mem.readU64 (haddr + 8) with
  | some typ, some sector =>
    let r := d.transferData mem typ sector outs ins
    match r.1 with
    | .error e => (.error e, r.2)
    | .ok t => r.2.1.finishRequest r.2.2 typ sector saddr t
  | _, _ => (.error .ram, d, mem)

/-- `handle_chain` after the walk: runs the request and returns the length for the
used ring. -/
def handleSegs (d : VirtioBlk) (mem : GuestRam) (readable writable : List Seg) :
    UInt32 × VirtioBlk × GuestRam :=
  match readable, writable.getLast? with
  | header :: outs, some status =>
    let r := d.handleRequest mem header.1 outs writable.dropLast status.1
    match r.1 with
    | .ok written => (written, r.2)
    | .error _ =>
      -- always report a failure
      (1, r.2.1, (r.2.2.writeU8 status.1 virtioBlkSIoerr).getD r.2.2)
  | _, _ => (0, d, mem)

/-- Walks the chain at `head` and serves it. -/
def handleChain (d : VirtioBlk) (mem : GuestRam) (head : UInt16) : UInt32 × VirtioBlk × GuestRam :=
  let ds := (d.queue.chain mem head).1
  d.handleSegs mem (readable ds) (writable ds)

/-- The loop of `process_queue`: up to `pending` heads from `last` on.  Returns
the index after the last head served. -/
def serveHeads : ℕ → UInt16 → VirtioBlk → GuestRam → UInt16 × VirtioBlk × GuestRam
  | 0, last, d, mem => (last, d, mem)
  | pending + 1, last, d, mem =>
    match d.queue.availSlot last with
    | none => (last, d, mem)
    | some slot =>
      match mem.readU16 slot with
      | none => (last, d, mem)
      | some head =>
        let r := d.handleChain mem head
        serveHeads pending (last + 1) r.2.1 (d.queue.pushUsed r.2.2 head r.1)

/-- Serves every buffer the driver has made available. -/
def processQueue (d : VirtioBlk) (mem : GuestRam) : VirtioBlk × GuestRam :=
  if d.queue.isReady then
    match d.queue.pending mem with
    | none => (d, mem)
    | some pending =>
      let r := serveHeads pending.toNat d.queue.lastAvail d mem
      let t := r.2.1.transport.setQueue 0 (d.queue.setLastAvail r.1)
      -- at most 256 heads are served, so the index moved if and only if one was
      let serviced := r.1 ≠ d.queue.lastAvail
      let t := if serviced then { t with interruptStatus := t.interruptStatus ||| 1 } else t
      ({ r.2.1 with transport := t }, r.2.2)
  else (d, mem)

/-- A register write. -/
def mmioWrite (d : VirtioBlk) (mem : GuestRam) (w : UInt64 × UInt64) : VirtioBlk × GuestRam :=
  match Reg.decode w.1 with
  | some .queueNotify => d.processQueue mem
  | some r =>
    ({ d with transport := d.transport.writeReg DeviceKind.blk.select mem r w.2.toUInt32 }, mem)
  | none => (d, mem)

end VirtioBlk
