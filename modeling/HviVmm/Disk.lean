/-
What a virtio-blk device is for: a disk.

A `Disk` is an array of bytes.  It serves requests by sector, with no descriptors,
no rings and no machine integers: a request either lies inside the array and is
answered, or is refused and changes nothing.  `BlkRequest` and `BlkRefinement`
show that the device is this disk.
-/
import HviVmm.Blk

/-- A request as the protocol means it. -/
inductive DiskRequest where
  /-- Read as many bytes as the driver has room for. -/
  | read (sector room : ℕ)
  | write (sector : ℕ) (data : List UInt8)
  | flush
  | getId (room : ℕ)
  /-- A request type the device does not implement. -/
  | other
  deriving DecidableEq, Repr

/-- The status and the bytes the driver gets back. -/
structure DiskReply where
  status : UInt8
  data : List UInt8 := []
  deriving DecidableEq, Repr

/-- A disk.  `syncFaults` says which of the flushes to come fail. -/
structure Disk where
  data : List UInt8
  readOnly : Bool
  serial : List UInt8
  syncFaults : List Bool := []
  deriving DecidableEq, Repr

namespace Disk

variable {k : Disk} {sector : ℕ}

/-- The bytes with `buf` in place of those from `base` on. -/
def replace (k : Disk) (base : ℕ) (buf : List UInt8) : Disk :=
  { k with data := k.data.take base ++ buf ++ k.data.drop (base + buf.length) }

/-- Serves one request. -/
def serve (k : Disk) : DiskRequest → Disk × DiskReply
  | .read sector room =>
    if sector * 512 + room ≤ k.data.length then
      (k, ⟨virtioBlkSOk, (k.data.drop (sector * 512)).take room⟩)
    else (k, ⟨virtioBlkSIoerr, []⟩)
  | .write sector data =>
    if k.readOnly = false ∧ sector * 512 + data.length ≤ k.data.length then
      (k.replace (sector * 512) data, ⟨virtioBlkSOk, []⟩)
    else (k, ⟨virtioBlkSIoerr, []⟩)
  | .flush =>
    if k.readOnly then (k, ⟨virtioBlkSOk, []⟩)
    else
      let k' := { k with syncFaults := k.syncFaults.tail }
      if k.syncFaults.head?.getD false then (k', ⟨virtioBlkSIoerr, []⟩)
      else (k', ⟨virtioBlkSOk, []⟩)
  | .getId room => (k, ⟨virtioBlkSOk, k.serial.take room⟩)
  | .other => (k, ⟨virtioBlkSUnsupp, []⟩)

/-- Serves requests in order. -/
def serveAll (k : Disk) : List DiskRequest → Disk × List DiskReply
  | [] => (k, [])
  | r :: rs =>
    let first := k.serve r
    let rest := first.1.serveAll rs
    (rest.1, first.2 :: rest.2)

theorem serve_read_ok {room : ℕ} (h : sector * 512 + room ≤ k.data.length) :
    k.serve (.read sector room) = (k, ⟨virtioBlkSOk, (k.data.drop (sector * 512)).take room⟩) :=
  if_pos h

theorem serve_read_refused {room : ℕ} (h : ¬ sector * 512 + room ≤ k.data.length) :
    k.serve (.read sector room) = (k, ⟨virtioBlkSIoerr, []⟩) :=
  if_neg h

theorem serve_write_ok {data : List UInt8} (hro : k.readOnly = false)
    (h : sector * 512 + data.length ≤ k.data.length) :
    k.serve (.write sector data) = (k.replace (sector * 512) data, ⟨virtioBlkSOk, []⟩) :=
  if_pos ⟨hro, h⟩

theorem serve_write_refused {data : List UInt8}
    (h : ¬ (k.readOnly = false ∧ sector * 512 + data.length ≤ k.data.length)) :
    k.serve (.write sector data) = (k, ⟨virtioBlkSIoerr, []⟩) :=
  if_neg h

/-- Serving a request keeps the size of the disk and its serial. -/
theorem serve_keeps (k : Disk) (r : DiskRequest) :
    (k.serve r).1.data.length = k.data.length ∧ (k.serve r).1.serial = k.serial := by
  cases r with
  | read sector room =>
    by_cases h : sector * 512 + room ≤ k.data.length
    · simp [serve_read_ok h]
    · simp [serve_read_refused h]
  | write sector data =>
    by_cases h : k.readOnly = false ∧ sector * 512 + data.length ≤ k.data.length
    · have := h.2
      rw [serve_write_ok h.1 h.2]
      simp [replace]
      omega
    · simp [serve_write_refused h]
  | flush =>
    simp only [serve]
    split
    · exact ⟨rfl, rfl⟩
    · split <;> exact ⟨rfl, rfl⟩
  | getId room => exact ⟨rfl, rfl⟩
  | other => exact ⟨rfl, rfl⟩

end Disk

/-! ### The device as a disk -/

/-- The device holds the disk: its file is the disk's bytes and `rest`, which the
capacity leaves out, and its positioned I/O does not fail. -/
structure VirtioBlk.Holds (d : VirtioBlk) (k : Disk) (rest : List UInt8) : Prop where
  bytes : d.file.bytes = k.data ++ rest
  length : k.data.length = d.capacitySectors.toNat * 512
  addressable : d.capacitySectors.toNat * 512 < 2 ^ 64
  faults : d.file.faults = []
  syncFaults : d.file.syncFaults = k.syncFaults
  readOnly : d.readOnly = k.readOnly
  serial : d.serial.toList = k.serial

/-- The disk a device holds. -/
def VirtioBlk.disk (d : VirtioBlk) : Disk where
  data := d.file.bytes.take (d.capacitySectors.toNat * 512)
  readOnly := d.readOnly
  serial := d.serial.toList
  syncFaults := d.file.syncFaults

/-! ### The driver's side -/

/-- A chain as a driver lays it out: the header, the data and the status byte. -/
structure BlkChain where
  header : Desc
  data : List Desc
  status : Desc
  deriving DecidableEq, Repr

/-- A request of type `typ` with room for `room` bytes and the bytes `data`. -/
def decodeRequest (typ : UInt32) (sector room : ℕ) (data : List UInt8) : DiskRequest :=
  if typ = virtioBlkTIn then .read sector room
  else if typ = virtioBlkTOut then .write sector data
  else if typ = virtioBlkTFlush then .flush
  else if typ = virtioBlkTGetId then .getId room
  else .other

namespace BlkChain

def descs (c : BlkChain) : List Desc := c.header :: (c.data ++ [c.status])

/-- The data the device reads. -/
def outs (c : BlkChain) : List Seg := readable c.data

/-- The room for data the device writes. -/
def ins (c : BlkChain) : List Seg := writable c.data

/-- Everything the chain names. -/
def buffers (c : BlkChain) : List (ℕ × ℕ) := c.descs.map fun d => span d.seg

/-- The chain is laid out at `head`: a 16-byte readable header first, a one-byte
writable status last, and every buffer in RAM. -/
structure Laid (q : Queue) (mem : GuestRam) (head : UInt16) (c : BlkChain) : Prop where
  chain : q.chain mem head = (c.descs, .done)
  header : c.header.isWrite = false ∧ c.header.len = 16
  status : c.status.isWrite = true ∧ c.status.len = 1
  inRam : ∀ d ∈ c.descs, mem.contains d.addr d.len.toNat = true

/-- The request the driver has put in memory. -/
def request (m : ℕ → UInt8) (c : BlkChain) : DiskRequest :=
  decodeRequest (UInt32.ofNat (ByteCodec.leNat (ByteStore.peek m c.header.addr.toNat 4)))
    (ByteCodec.leNat (ByteStore.peek m (c.header.addr.toNat + 8) 8)) (totalLen c.ins)
    (ByteStore.gather m (spans c.outs))

end BlkChain
