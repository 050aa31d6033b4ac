/-
Serving the queues of a virtio-fs device (`devices::virtio::fs::server`).

A chain is gathered into a request, the request is dispatched, and the reply is scattered over
the chain's writable buffers; READ and WRITE move their data between the host file and guest
RAM directly where their layout allows it.  A lock request that could not be served is parked,
and repeated later.  Which chains are served and when is left to the runs of `FsOp`.

What the serving code works on is the device and guest RAM.  Guest RAM changes here only by
what the device stores; between two operations of the device its bytes are the guest's.
-/
import HviVmm.FsListing

open CallPrograms Fuse ByteStore
open scoped QueueIndex

namespace VirtioFs

/-! ### Requests -/

/-- Everything that is answered, by opcode. -/
def dispatch (op : Option Opcode) (node : UInt64) (payload : Bytes) (context : RequestContext)
    (unique : UInt64) (capacity : ℕ) : Fs Bytes :=
  match op with
  | some .init => init payload
  | some .lookup => lookup node payload
  | some .getattr => getattr node payload
  | some .setattr => setattr node payload
  | some .readlink => readlink node
  | some .symlink => symlink node payload context
  | some .mknod => mknod node payload context
  | some .mkdir => mkdir node payload context
  | some .unlink => remove node payload false
  | some .rmdir => remove node payload true
  | some .rename => rename node payload false
  | some .rename2 => rename node payload true
  | some .link => link node payload
  | some .openFile => openNode node payload false
  | some .opendir => do
    if (← Proc.get).cachePolicy = .none then openNode node payload true else Proc.throw .enosys
  | some .read => read node payload capacity
  | some .write => write node payload
  | some .readdir => readdir node payload capacity false
  | some .statfs => statfs
  | some .access => access node payload
  | some .create => create node payload context
  | some .setxattr => setxattr node payload
  | some .getxattr => getxattr node payload
  | some .listxattr => listxattr node payload
  | some .removexattr => removexattr node payload
  | some .release => release payload
  | some .releasedir => releaseDir payload
  | some .flush => flush payload
  | some .fsync => fsync payload
  | some .fsyncdir => fsyncDir node payload
  | some .getlk => lock payload .getlk unique
  | some .setlk => lock payload .setlk unique
  | some .setlkw => lock payload .setlkw unique
  | some .poll => poll payload
  | some .fallocate => fallocate payload
  | some .readdirplus => readdir node payload capacity true
  | some .lseek => lseek payload
  | some .copyFileRange => copyFileRange payload
  | some .syncfs => syncfs
  | some .tmpfile => tmpfile node payload context
  | some .statx => statx node payload
  | some .ioctl => Proc.throw .enotty
  | some .setupmapping | some .removemapping => Proc.throw .eopnotsupp
  | some .forget | some .batchForget | some .destroy | some .interrupt | none => Proc.throw .enosys

/-- The reply to a dispatched request; none yet for a SETLKW on a held lock. -/
def replyTo (unique : UInt64) (result : Except Errno Bytes) : Fs Bytes := do
  if (← Proc.get).lockToPark.isSome then pure []
  else
    match result with
    | .ok payload => pure (successResponse unique payload)
    | .error errno => pure (errorResponse unique errno)

/-- The part of a request after its headers, as far as the header says it reaches. -/
def requestPayload (raw : Bytes) : Bytes :=
  (raw.take ((getU32 raw 0).getD 0).toNat).drop inHeaderLen

/-- Checks the length a request declares and answers it.  FORGET, BATCH_FORGET and DESTROY are
answered with nothing at all. -/
def answerRequest (raw : Bytes) (maxOut : ℕ) : Fs Bytes := do
  let declared := ((getU32 raw 0).getD 0).toNat
  let unique := (getU64 raw 8).getD 0
  let node := (getU64 raw 16).getD 0
  let context : RequestContext := ⟨(getU32 raw 24).getD 0, (getU32 raw 28).getD 0⟩
  if declared < inHeaderLen ∨ raw.length < declared then pure (errorResponse unique .einval)
  else
    let payload := requestPayload raw
    match Opcode.decode ((getU32 raw 4).getD 0) with
    | some .forget => do
      Proc.modify (forget · node payload)
      pure []
    | some .batchForget => do
      Proc.modify (batchForget · payload)
      pure []
    | some .destroy => pure []
    | op => do
      let result ← (dispatch op node payload context unique (maxOut - outHeaderLen)).attempt
      replyTo unique result

/-- Serves one request.  What was prepared ahead is dropped before one that may change
something, also when the request then turns out to be malformed. -/
def handleFuse (raw : Bytes) (maxOut : ℕ) : Fs Bytes := do
  if !requestIsReadOnly ((getU32 raw 4).getD 0) (raw.drop inHeaderLen) then dropPrepared
  answerRequest raw maxOut

end VirtioFs

/-! ### Guest memory -/

/-- Reads `want` bytes from the logical concatenation of the buffers, `skip` bytes in. -/
def gatherFrom (mem : GuestRam) (skip want : ℕ) : List Seg → ℕ → Bytes → Option Bytes
  | [], _, got => if got.length < want then none else some got
  | (addr, len) :: rest, pos, got =>
    if got.length = want then some got
    else
      let descEnd := pos + len.toNat
      if skip < descEnd then
        let start := skip - pos
        let avail := min (len.toNat - start) (want - got.length)
        if addr.toNat + start < 2 ^ 64 then
          match mem.read (addr + UInt64.ofNat start) avail with
          | some bytes => gatherFrom mem skip want rest descEnd (got ++ bytes)
          | none => none
        else none
      else gatherFrom mem skip want rest descEnd got

/-- `gather`. -/
def gatherBytes (mem : GuestRam) (segs : List Seg) (skip want : ℕ) : Option Bytes :=
  gatherFrom mem skip want segs 0 []

/-- Largest iovec count a single `preadv` or `pwritev` may carry. -/
def iovMax : ℕ := 1024

/-- The parts of the buffers that hold bytes `skip` to `skip + cap` of their concatenation. -/
def buildIovFrom (mem : GuestRam) (skip cap : ℕ) :
    List Seg → ℕ → ℕ → List (ℕ × ℕ) → Option (List (ℕ × ℕ) × ℕ)
  | [], _, total, iov => some (iov, total)
  | (addr, len) :: rest, pos, total, iov =>
    if total = cap then some (iov, total)
    else
      let descEnd := pos + len.toNat
      if skip < descEnd then
        let start := skip - pos
        let avail := min (len.toNat - start) (cap - total)
        if 0 < avail then
          if addr.toNat + start < 2 ^ 64 ∧ mem.contains (addr + UInt64.ofNat start) avail then
            buildIovFrom mem skip cap rest descEnd (total + avail)
              (iov ++ [(addr.toNat + start, avail)])
          else none
        else buildIovFrom mem skip cap rest descEnd total iov
      else buildIovFrom mem skip cap rest descEnd total iov

/-- `build_iov`: the ranges and how many bytes they cover. -/
def buildIov (mem : GuestRam) (segs : List Seg) (skip cap : ℕ) : Option (List (ℕ × ℕ) × ℕ) :=
  if iovMax < segs.length then none else buildIovFrom mem skip cap segs 0 0 []

/-- Copies `src` into the buffers in turn.  Returns how much was copied and whether no store
was refused. -/
def writeSegs (mem : GuestRam) : List Seg → Bytes → GuestRam × ℕ × Bool
  | [], _ => (mem, 0, true)
  | _ :: _, [] => (mem, 0, true)
  | (addr, len) :: rest, src =>
    let n := min len.toNat src.length
    match mem.write addr (src.take n) with
    | none => (mem, 0, false)
    | some mem =>
      let done := writeSegs mem rest (src.drop n)
      (done.1, n + done.2.1, done.2.2)

/-- Copies a reply into a chain's writable buffers and returns the used length.  A reply the
buffers cannot hold is not written at all. -/
def writeReply (mem : GuestRam) (output : List Seg) (response : Bytes) : GuestRam × UInt32 :=
  if totalLen output < response.length then (mem, 0)
  else
    let done := writeSegs mem output response
    (done.1, UInt32.ofNat done.2.1)

/-- The header of a successful reply of `totalLen` bytes. -/
def directOutHeader (unique : UInt64) (totalLen : ℕ) : Bytes :=
  putU32 (UInt32.ofNat totalLen) ++ putU32 0 ++ putU64 unique

/-! ### Chains -/

/-- The device and guest RAM. -/
structure FsGuest where
  dev : VirtioFs
  mem : GuestRam

/-- What a handler produced: a reply to copy out, or one that is already in place. -/
inductive FsReply where
  | buffered (response : Bytes)
  | direct (n : ℕ)

namespace FsGuest

/-- Programs of the server. -/
abbrev Serve := Io FsGuest

/-- Runs a computation of the device. -/
def onDev {α : Type} (m : Fs α) : Serve α := m.zoom FsGuest.dev fun d g => { g with dev := d }

def setMem (mem : GuestRam) : Serve Unit := Proc.modify fun g => { g with mem }

def setBytes (bytes : ℕ → UInt8) : Serve Unit :=
  Proc.modify fun g => { g with mem := { g.mem with bytes } }

/-- The ranges a direct READ moves its data into, with the handle and the offset.  `none`
leaves the request to the buffered path. -/
def directReadPlan (g : FsGuest) (declared : ℕ) (input output : List Seg) (maxOut : ℕ) :
    Option (FileHandle × UInt64 × List (ℕ × ℕ)) := do
  if declared < inHeaderLen + 20 ∨ totalLen input < declared then none
  let args ← gatherBytes g.mem input inHeaderLen 20
  let fh ← getU64 args 0
  if fh = 0 then none
  let offset ← getU64 args 8
  let requested ← getU32 args 16
  let handle ← g.dev.handles.lookup fh
  let want := min (min requested.toNat (maxOut - outHeaderLen)) maxWrite
  let (iov, _) ← buildIov g.mem output outHeaderLen want
  some (handle, offset, iov)

/-- `preadv`, past interruptions; an empty list of ranges is a read of nothing. -/
def preadvRetry (file : Fd) (iov : List (ℕ × ℕ)) (offset : UInt64) :
    Serve (Except HostErr Bytes) := do
  if iov = [] then pure (.ok []) else Io.ask (.preadv file (iov.map Prod.snd) offset)

/-- The rest of a direct READ once its ranges are known: the data goes straight into them, the
header in front of it. -/
def readInto (unique : UInt64) (output : List Seg) (handle : FileHandle) (offset : UInt64)
    (iov : List (ℕ × ℕ)) : Serve (Option FsReply) := do
  match ← preadvRetry handle.file iov offset with
  | .error err => pure (some (.buffered (errorResponse unique (ioErrno err))))
  | .ok data =>
    setBytes (scatter (← Proc.get).mem.bytes iov data)
    let n := outHeaderLen + data.length
    let (mem, _, ok) := writeSegs (← Proc.get).mem output (directOutHeader unique n)
    setMem mem
    if ok then pure (some (.direct n)) else pure (some (.buffered (errorResponse unique .eio)))

/-- The zero-copy READ. -/
def readDirect (unique : UInt64) (declared : ℕ) (input output : List Seg) (maxOut : ℕ) :
    Serve (Option FsReply) := do
  match (← Proc.get).directReadPlan declared input output maxOut with
  | none => pure none
  | some (handle, offset, iov) => readInto unique output handle offset iov

/-- What a direct WRITE writes, with the handle id, the handle, the offset and the flags. -/
def directWritePlan (g : FsGuest) (declared : ℕ) (input : List Seg) :
    Option (UInt64 × FileHandle × UInt64 × UInt32 × List (ℕ × ℕ)) := do
  if declared < inHeaderLen ∨ totalLen input < declared then none
  let args ← gatherBytes g.mem input inHeaderLen 24
  let fh ← getU64 args 0
  let offset ← getU64 args 8
  let size ← getU32 args 16
  let writeFlags ← getU32 args 20
  if maxWrite < size.toNat ∨ declared < inHeaderLen + 40 + size.toNat then none
  let handle ← g.dev.handles.lookup fh
  if !handle.writable then none
  let (iov, covered) ← buildIov g.mem input (inHeaderLen + 40) size.toNat
  if covered < size.toNat then none
  some (fh, handle, offset, writeFlags, iov)

/-- `pwritev`, past interruptions. -/
def pwritevRetry (file : Fd) (data : List Bytes) (offset : UInt64) : Serve (Except HostErr ℕ) := do
  if data = [] then pure (.ok 0) else Io.ask (.pwritev file data offset)

/-- Clears the set-id bits after a direct WRITE, if the guest asks. -/
def killAfterDirect (node fh : UInt64) (writeFlags : UInt32) : Fs (Except Errno Unit) := do
  if has writeFlags fuseWriteKillSuidgid then
    match (← Proc.get).handles.lookup fh with
    | some handle =>
      match ← (VirtioFs.clearSuidSgid handle.file).attempt with
      | .error errno => pure (.error errno)
      | .ok () => do
        Proc.modify (VirtioFs.invalidateGuestAttr · node)
        pure (.ok ())
    | none => do
      Proc.modify (VirtioFs.invalidateGuestAttr · node)
      pure (.ok ())
  else pure (.ok ())

/-- The rest of a direct WRITE, once the device is prepared for a change. -/
def writeFrom (node unique : UInt64) (declared : ℕ) (input : List Seg) :
    Serve (Option FsReply) := do
  match (← Proc.get).directWritePlan declared input with
  | none => pure none
  | some (fh, handle, offset, writeFlags, iov) =>
    let bytes := (← Proc.get).mem.bytes
    match ← pwritevRetry handle.file (iov.map fun r => peek bytes r.1 r.2) offset with
    | .error err => pure (some (.buffered (errorResponse unique (ioErrno err))))
    | .ok n =>
      match ← onDev (killAfterDirect node fh writeFlags) with
      | .error errno => pure (some (.buffered (errorResponse unique errno)))
      | .ok () =>
        pure (some (.buffered (successResponse unique (VirtioFs.writeReplyPayload n))))

/-- The zero-copy WRITE.  It marks the export dirty and drops what was prepared itself, since
it reaches neither of the places the buffered path does so. -/
def writeDirect (node unique : UInt64) (declared : ℕ) (input : List Seg) :
    Serve (Option FsReply) := do
  if !(← Proc.get).dev.writable then pure none
  else
    onDev (Proc.modify fun s => { s with dirty := true })
    onDev VirtioFs.dropPrepared
    writeFrom node unique declared input

/-- The buffered path: the request gathered whole. -/
def handleFuseGathered (unique : UInt64) (input : List Seg) (maxOut : ℕ) : Serve FsReply := do
  match gatherBytes (← Proc.get).mem input 0 (totalLen input) with
  | none => pure (.buffered (errorResponse unique .eio))
  | some request => do pure (.buffered (← onDev (VirtioFs.handleFuse request maxOut)))

/-- The direct path of a request with this header; `none` leaves it to the buffered one. -/
def tryDirect (header : Bytes) (input output : List Seg) (maxOut : ℕ) : Serve (Option FsReply) :=
  let declared := ((getU32 header 0).getD 0).toNat
  let unique := (getU64 header 8).getD 0
  match Opcode.decode ((getU32 header 4).getD 0) with
  | some .read => readDirect unique declared input output maxOut
  | some .write => writeDirect ((getU64 header 16).getD 0) unique declared input
  | _ => pure none

/-- What is answered once the direct path was tried. -/
def afterDirect (header : Bytes) (input : List Seg) (maxOut : ℕ) : Option FsReply → Serve FsReply
  | some reply => pure reply
  | none => handleFuseGathered ((getU64 header 8).getD 0) input maxOut

/-- Descriptor-aware dispatch: READ and WRITE may take the direct path. -/
def handleFuseDesc (input output : List Seg) (maxOut : ℕ) : Serve FsReply := do
  match gatherBytes (← Proc.get).mem input 0 inHeaderLen with
  | none => pure (.buffered (errorResponse 0 .eio))
  | some header => tryDirect header input output maxOut >>= afterDirect header input maxOut

/-- Whether a chain can be served: what it offers is not too much, holds a header, and leaves
room for a reply unless the request has none. -/
def chainAccepted (mem : GuestRam) (ds : List Desc) (ended : ChainEnd) : Bool :=
  ended != .broken && decide (totalLen (readable ds) ≤ maxRequest) &&
    decide (inHeaderLen ≤ totalLen (readable ds)) &&
    (!(writable ds).isEmpty ||
      match gatherBytes mem (readable ds) 4 4 with
      | none => false
      | some bytes =>
        match Opcode.decode ((getU32 bytes 0).getD 0) with
        | some .forget | some .batchForget => true
        | _ => false)

/-- How many ring entries the waiters of a queue hold. -/
def heldDescriptors (s : VirtioFs) (i : Fin 2) : ℕ :=
  ((s.lockWaiters.filter fun w => w.queueIdx == i).map LockWaiter.descriptors).sum

/-- Scatters a buffered reply, or parks the SETLKW the request turned out to be. -/
def finishBuffered (i : Fin 2) (head : UInt16) (ds : List Desc) (response : Bytes) :
    Serve (Option UInt32) := do
  match (← Proc.get).dev.lockToPark with
  | none =>
    let (mem, used) := writeReply (← Proc.get).mem (writable ds) response
    setMem mem
    pure (some used)
  | some pending =>
    onDev (Proc.modify fun s => { s with lockToPark := none })
    let g ← Proc.get
    let descriptors := (readable ds).length + (writable ds).length
    if LockWaiter.cap (g.dev.transport.queues i).size < heldDescriptors g.dev i + descriptors then
      let (mem, used) := writeReply g.mem (writable ds) (errorResponse pending.unique .enolck)
      setMem mem
      pure (some used)
    else
      onDev (Proc.modify fun s =>
        { s with
          lockWaiters := s.lockWaiters ++
            [{ queueIdx := i, head, descriptors, output := writable ds, unique := pending.unique
               fh := pending.fh, call := pending.call }] })
      pure none

/-- Serves the request in a chain that was accepted. -/
def serveAccepted (i : Fin 2) (head : UInt16) (ds : List Desc) : Serve (Option UInt32) := do
  match ← handleFuseDesc (readable ds) (writable ds) (totalLen (writable ds)) with
  | .direct n => pure (some (UInt32.ofNat n))
  | .buffered response => finishBuffered i head ds response

/-- Serves one chain and returns the length of its reply, or `none` for a SETLKW that is now
parked and will be completed later. -/
def handleChain (i : Fin 2) (head : UInt16) : Serve (Option UInt32) := do
  let g ← Proc.get
  let (ds, ended) := (g.dev.transport.queues i).chain g.mem head
  if !chainAccepted g.mem ds ended then pure (some 0) else serveAccepted i head ds

/-! ### Queues -/

/-- Pushes a completed chain to the used ring of its queue. -/
def pushUsed (i : Fin 2) (head : UInt16) (used : UInt32) : Serve Unit := do
  let g ← Proc.get
  setMem ((g.dev.transport.queues i).pushUsed g.mem head used)

/-- Tells the driver of used buffers. -/
def raiseInterrupt (s : VirtioFs) : VirtioFs :=
  { s with
    transport := { s.transport with interruptStatus := s.transport.interruptStatus ||| 1 } }

/-- Answers a parked SETLKW. -/
def completeWaiter (w : LockWaiter) (answer : Except Errno Unit) : Serve Unit := do
  if answer.isOk then onDev (Proc.modify (VirtioFs.notePosixLock · w.fh w.call))
  let response := match answer with
    | .ok () => successResponse w.unique []
    | .error errno => errorResponse w.unique errno
  let (mem, used) := writeReply (← Proc.get).mem w.output response
  setMem mem
  pushUsed w.queueIdx w.head used
  onDev (Proc.modify raiseInterrupt)

/-- Repeats one parked SETLKW, once.  One whose queue the guest took down is dropped. -/
def retryWaiter (w : LockWaiter) : Serve Unit := do
  let g ← Proc.get
  if !(g.dev.transport.queues w.queueIdx).isReady then pure ()
  else
    match g.dev.handles.lookup w.fh with
    | none => completeWaiter w (.error .ebadf)
    | some handle =>
      match ← Io.tryLock handle.file w.call with
      | .ok () => completeWaiter w (.ok ())
      | .error (some errno) => completeWaiter w (.error errno)
      | .error none =>
        onDev (Proc.modify fun s => { s with lockWaiters := s.lockWaiters ++ [w] })

/-- Repeats every parked SETLKW once, and completes those that are answered.  Returns whether
any is still waiting. -/
def retryLockWaiters : Serve Bool := do
  let waiters := (← Proc.get).dev.lockWaiters
  onDev (Proc.modify fun s => { s with lockWaiters := [] })
  Proc.forEach retryWaiter waiters
  pure (!(← Proc.get).dev.lockWaiters.isEmpty)

end FsGuest

/-! ### Reset -/

namespace VirtioFs

/-- What is left of the tables after a reset: the root node. -/
def clearSession (s : VirtioFs) : VirtioFs :=
  { s with
    sockets := ∅
    nodes := s.nodes.retain fun node _ => node == rootId
    inodeIds := s.inodeIds.retain fun _ node => node == rootId
    nextNode := 2
    parked := ∅
    parkedOrder := []
    lockWaiters := []
    lockToPark := none }

/-- Lets go of the handles one by one, their tmpfiles with them, and of all else. -/
def resetWith (handles : List FileHandle) : Fs Unit := do
  Proc.modify fun s => { s with transport := s.transport.reset, notified := 0, handles := ∅ }
  Proc.forEach (fun handle : FileHandle => do
    let _ ← (removeTemporary handle.temporaryPath).attempt) handles
  Proc.modify fun s =>
    { s with dirHandles := ∅, fh0Listings := ∅, fh0Order := [], fh0Finished := [] }
  Io.ask .raInvalidate
  Proc.modify clearSession

/-- Resets the device; `dirty` stays. -/
def reset : Fs Unit := do
  resetWith (← Proc.get).handles.values

end VirtioFs
