/-
The requests about open files (`devices::virtio::fs::server`): OPEN and OPENDIR, CREATE and
TMPFILE, READ and WRITE as the buffered path serves them, RELEASE, the syncs, the locks,
FALLOCATE, LSEEK, COPY_FILE_RANGE, POLL and INIT.

The loops of the source that repeat a host call count down here: a chunk that is copied or
zeroed without ending the loop is a full one, and a write that does not end its loop has
written at least a byte.
-/
import HviVmm.FsNames

open CallPrograms Fuse
open scoped QueueIndex

namespace VirtioFs

/-! ### Directories -/

/-- The listing a directory handle holds. -/
def dirEntries (path : PathBuf) : Fs (List DirEntryInfo) := do
  let relative ← relativeOfPath path
  let entries ← Io.readDirAt (← onDirs (DirCache.dirFdOwned relative))
  pure ((← Proc.get).assembleEntries path entries)

def insertDirHandle (path : PathBuf) : Fs UInt64 := do
  let relative ← relativeOfPath path
  let file ← onDirs (DirCache.dirFdOwned relative)
  let entries ← dirEntries path
  let fh := (← Proc.get).nextHandle
  Proc.modify fun s =>
    { s with nextHandle := bump s.nextHandle, dirHandles := s.dirHandles.insert fh { file, entries }
      }
  pure fh

/-- RELEASEDIR. -/
def releaseDir (input : Bytes) : Fs Bytes := do
  let fh ← u64At input 0
  if fh = 0 then pure []
  else
    let _ ← Proc.orThrow ((← Proc.get).dirHandles.lookup fh) .ebadf
    Proc.modify fun s => { s with dirHandles := s.dirHandles.erase fh }
    pure []

/-! ### Opening -/

/-- Adds a handle for an open file. -/
def addHandle (file : Fd) (writable : Bool) (openFlags : UInt32) (attrs : HandleAttrs)
    (path : PathBuf) (temporaryPath : Option PathBuf) (node : UInt64) : Fs UInt64 :=
  Proc.modifyGet fun s => s.insertHandle
    { file, writable, openFlags, attrs, path, temporaryPath, node, locked := false }

def openReply (fh : UInt64) : Fs Bytes := do
  pure (putOpenOut fh ((← Proc.get).cachePolicy != .none))

/-- Clears the set-id bits of a file that is being opened, if the guest asks. -/
def killOnOpen (node : UInt64) (file : Fd) (openFlags : UInt32) : Fs Unit := do
  if has openFlags fuseOpenKillSuidgid then
    clearSuidSgid file
    Proc.modify (invalidateGuestAttr · node)

/-- Opens an unlinked-but-open node through a descriptor it already has. -/
def openOrphan (node : UInt64) (flags openFlags : UInt32) (directory : Bool) : Fs Bytes := do
  let s ← Proc.get
  if directory then Proc.throw .enoent
  else if s.handleLimit ≤ s.openHandleCount then Proc.throw .enfile
  else
    let writable := has flags linuxOAccmode
    let wantsWrite := writable || has flags linuxOTrunc || has openFlags fuseOpenKillSuidgid
    let (_, handle) ← Proc.orThrow (s.handleOfNode node) .enoent
    if wantsWrite && !handle.writable then Proc.throw .eacces
    else
      let file ← Io.dupCloexec handle.file
      if has flags linuxOTrunc then Io.setLen file 0
      killOnOpen node file openFlags
      let attrs := HandleAttrs.of (← Io.statOfFd file)
      let fh ← addHandle file writable flags attrs handle.path none node
      openReply fh

/-- Hands back a descriptor the guest closed earlier, if the file it refers to is still the
file this open would have reached. -/
def takeParked (node : UInt64) (flags : UInt32) : Fs (Option (Fd × HandleAttrs)) := do
  if ((← Proc.get).parked.lookup node).map ParkedFd.flags ≠
    some (parkedFlagKey flags) then pure none
  else
    match ← (do
      let (dirfd, name) ← entryAt node
      Io.statAt dirfd name).attempt with
    | .error _ => do
      Proc.modify (dropParked · node)
      pure none
    | .ok stat =>
      match (← Proc.get).parked.lookup node with
      | none => pure none
      | some parked =>
        Proc.modify (dropParked · node)
        if HandleAttrs.of stat ≠ parked.attrs then pure none
        else pure (some (parked.file, parked.attrs))

/-- Both caches yield their descriptors before the guest is told that the host is out, in at
most `n` turns of the loop. -/
def makeHandleRoom : ℕ → VirtioFs → VirtioFs
  | 0, s => s
  | n + 1, s =>
    if s.handleLimit ≤ s.descriptorsHeld then
      match s.evictOneParked with
      | (s, true) => makeHandleRoom n s
      | (s, false) =>
        match s.dirs.evictOne with
        | (dirs, true) => makeHandleRoom n { s with dirs }
        | (dirs, false) => { s with dirs }
    else s

/-- The open that reaches the host: the type is checked by name before it and on the
descriptor after it. -/
def openByName (node : UInt64) (flags : UInt32) : Fs (Fd × HandleAttrs) := do
  let (dirfd, name) ← entryAt node
  let entry ← Io.statAt dirfd name
  if entry.isDir then Proc.throw .eisdir
  else if !entry.isFile then Proc.throw .eperm
  else
    match ← (Io.openHostFileAt dirfd name flags false 0).attempt with
    | .error err => do Proc.throw (← Io.openFailureErrnoAt dirfd name err)
    | .ok file =>
      let stat ← Io.statOfFd file
      if stat.isDir then Proc.throw .eisdir
      else if !stat.isFile then Proc.throw .eperm
      else pure (file, HandleAttrs.of stat)

/-- Spends a place of the handle budget, unless the descriptor is one the device already
holds. -/
def admitHandle : Fs Unit := do
  Proc.modify fun s => makeHandleRoom (s.parked.len + s.dirs.held + 1) s
  let s ← Proc.get
  if s.handleLimit ≤ s.openHandleCount then Proc.throw .enfile

/-- An OPENDIR is of a directory. -/
def requireDirectory (path : PathBuf) : Fs Unit := do
  let stat ← statInExport path
  if !stat.isDir then Proc.throw .enotdir

/-- The parked descriptor an open may be served from. -/
def reuseParked (node : UInt64) (flags openFlags : UInt32) (directory : Bool) :
    Fs (Option (Fd × HandleAttrs)) := do
  if !directory && (← Proc.get).mayReuseDescriptor flags openFlags then takeParked node flags
  else pure none

/-- The parked descriptor, or one the host opens. -/
def openOrReuse (node : UInt64) (flags : UInt32) : Option (Fd × HandleAttrs) → Fs (Fd × HandleAttrs)
  | some reused => pure reused
  | none => openByName node flags

/-- The open of a node that has a name. -/
def openNamed (node : UInt64) (flags openFlags : UInt32) (directory : Bool) : Fs Bytes := do
  let path ← nodePath node
  if directory then requireDirectory path
  let reused ← reuseParked node flags openFlags directory
  if reused.isNone then admitHandle
  if directory then openReply (← insertDirHandle path)
  else
    let (file, attrs) ← openOrReuse node flags reused
    killOnOpen node file openFlags
    openReply (← addHandle file (has flags linuxOAccmode) flags attrs path none node)

/-- OPEN and OPENDIR. -/
def openNode (node : UInt64) (input : Bytes) (directory : Bool) : Fs Bytes := do
  let flags ← u32At input 0
  let openFlags ← u32At input 4
  let s ← Proc.get
  if openWantsWrite flags openFlags && !s.writable then Proc.throw .erofs
  else if s.isOrphan node then openOrphan node flags openFlags directory
  else openNamed node flags openFlags directory

/-- CREATE: the file is made and opened at once. -/
def create (parent : UInt64) (input : Bytes) (context : RequestContext) : Fs Bytes := do
  requireWritable
  let flags ← u32At input 0
  let mode ← u32At input 4
  let openFlags ← u32At input 12
  let name ← Proc.lift (nulName input 16)
  let path ← childPath parent name
  let (dirfd, entry) ← atPath path
  let file ← Io.openHostFileAt dirfd entry flags true (hostCreationMode mode false)
  initializeAt path mode context
  if has openFlags fuseOpenKillSuidgid then clearSuidSgid file
  let stat ← Io.statOfFd file
  let node ← nodeFor path stat
  Proc.modify (rememberLookup · node)
  let out ← entryOut node stat
  let fh ← addHandle file (has flags linuxOAccmode) flags (HandleAttrs.of stat) path none node
  pure (out ++ (← openReply fh))

/-- The decimal digits of a number. -/
def decimal (n : ℕ) : Bytes := (Nat.toDigits 10 n).map fun c => UInt8.ofNat c.toNat

/-- `.hvi-tmp-{pid}-{id}` -/
def tmpfileName (pid : ℕ) (id : UInt64) : Name :=
  [46, 104, 118, 105, 45, 116, 109, 112, 45] ++ decimal pid ++ [45] ++ decimal id.toNat

/-- TMPFILE: on the host the file has a name until its release. -/
def tmpfile (parent : UInt64) (input : Bytes) (context : RequestContext) : Fs Bytes := do
  requireWritable
  let flags ← u32At input 0
  let mode ← u32At input 4
  let parentPath ← nodePath parent
  let s ← Proc.get
  Proc.modify fun s => { s with nextTmpfile := bump s.nextTmpfile }
  let path := parentPath.join (tmpfileName s.process.pid s.nextTmpfile)
  let (dirfd, entry) ← atPath path
  let file ← Io.openHostFileAt dirfd entry (flags ||| linuxOExcl) true (hostCreationMode mode false)
  initializeAt path mode context
  let stat ← Io.statOfFd file
  let node ← nodeFor path stat
  Proc.modify (rememberLookup · node)
  let out ← entryOut node stat
  let fh ← addHandle file true flags (HandleAttrs.of stat) path (some path) node
  pure (out ++ putOpenOut fh false)

/-! ### Closing -/

/-- Removes the tmpfile a released handle owned.  A name that has moved away is not an
error. -/
def removeTemporary (temporaryPath : Option PathBuf) : Fs Unit := do
  match temporaryPath with
  | none => pure ()
  | some path =>
    let relative ← relativeOfPath path
    match ← (atRelative relative).attempt with
    | .error .enoent => pure ()
    | .error .enotdir => pure ()
    | .error err => Proc.throw err
    | .ok (dirfd, name) =>
      match ← (Io.unlinkAt dirfd name false).attempt with
      | .error err => if err ≠ .enoent then Proc.throw err else pure ()
      | .ok () => pure ()

/-- Drops the flock of a file. -/
def unlockFlock (file : Fd) : Fs Unit := do
  Io.hostResult (← Io.ask (.flock file .unlock false))

/-- What a parked descriptor is remembered with.  The guest's own writes through a writable
handle moved the change time. -/
def attrsToPark (handle : FileHandle) : Fs HandleAttrs := do
  if handle.writable then
    match ← (Io.statOfFd handle.file).attempt with
    | .ok stat => pure (HandleAttrs.of stat)
    | .error _ => pure handle.attrs
  else pure handle.attrs

/-- Parks the descriptor of a released handle, unless a lock may be on it. -/
def parkReleased (handle : FileHandle) (flags : UInt32) : Fs Unit := do
  if (← Proc.get).cachePolicy != .none && !has flags fuseReleaseFlockUnlock && !handle.locked then
    let attrs ← attrsToPark handle
    Proc.modify (parkDescriptor · handle.node handle.openFlags attrs handle.file)

/-- Lets go of a handle: its tmpfile is removed, or its descriptor parked. -/
def releaseHandle (fh : UInt64) (flags : UInt32) (handle : FileHandle) : Fs Bytes := do
  Proc.modify fun s => ({ s with handles := s.handles.erase fh }).releaseNode handle.node
  if has flags fuseReleaseFlockUnlock then unlockFlock handle.file
  if handle.temporaryPath.isSome then
    removeTemporary handle.temporaryPath
    pure []
  else
    parkReleased handle flags
    pure []

/-- RELEASE. -/
def release (input : Bytes) : Fs Bytes := do
  let fh ← u64At input 0
  let handle ← Proc.orThrow ((← Proc.get).handles.lookup fh) .ebadf
  releaseHandle fh ((getU32 input 12).getD 0) handle

/-- FLUSH: the handle is there, and that is all. -/
def flush (input : Bytes) : Fs Bytes := do
  let fh ← u64At input 0
  if ((← Proc.get).handles.lookup fh).isNone then Proc.throw .ebadf else pure []

/-- FSYNC, with or without the metadata. -/
def fsync (input : Bytes) : Fs Bytes := do
  let fh ← u64At input 0
  let flags ← u32At input 8
  let handle ← Proc.orThrow ((← Proc.get).handles.lookup fh) .ebadf
  Io.syncFile handle.file flags
  pure []

/-- FSYNCDIR: without a handle, the directory of the node. -/
def fsyncDir (node : UInt64) (input : Bytes) : Fs Bytes := do
  let fh ← u64At input 0
  let flags ← u32At input 8
  if fh ≠ 0 then
    let handle ← Proc.orThrow ((← Proc.get).dirHandles.lookup fh) .ebadf
    Io.syncFile handle.file flags
    pure []
  else
    let relative ← relativeOfPath (← nodePath node)
    Io.syncFile (← onDirs (DirCache.dirFdOwned relative)) flags
    pure []

/-- Syncs every file and returns the first failure. -/
def syncEach : List Fd → Fs (Option Errno)
  | [] => pure none
  | fd :: fds => do
    let synced : Except HostErr Unit ← Io.ask (.syncAll fd)
    let rest ← syncEach fds
    match synced with
    | .ok () => pure rest
    | .error err => pure (some (ioErrno err))

/-- Syncs the volume if something was changed since the last time.  The first failure is
reported. -/
def syncDirty (failed : Option Errno) : Fs (Option Errno) := do
  let s ← Proc.get
  if s.writable && s.dirty then
    match ← Io.ask .syncVolume with
    | .ok () => do
      Proc.modify fun s => { s with dirty := false }
      pure failed
    | .error err => pure (failed <|> some (ioErrno err))
  else pure failed

/-- SYNCFS: what is open, and then the volume. -/
def syncfs : Fs Bytes := do
  let s ← Proc.get
  let failed ← syncEach (s.handles.values.map FileHandle.file ++
    s.dirHandles.values.map DirHandle.file)
  match ← syncDirty failed with
  | some errno => Proc.throw errno
  | none => pure []

/-! ### Reading and writing -/

/-- READ. -/
def read (node : UInt64) (input : Bytes) (capacity : ℕ) : Fs Bytes := do
  let fh ← u64At input 0
  let offset ← u64At input 8
  let requested ← u32At input 16
  let want := min (min requested.toNat capacity) maxWrite
  match (← Proc.get).handles.lookup fh with
  | some handle => Io.readAt handle.file want offset
  | none =>
    if fh = 0 then
      if node = rootId then Proc.throw .eisdir
      else
        let (dirfd, name) ← entryAt node
        let stat ← Io.statAt dirfd name
        if !stat.isFile then Proc.throw (if stat.isDir then .eisdir else .einval)
        else
          let file ← Io.openHostFileAt dirfd name 0 false 0
          Io.readAt file want offset
    else Proc.throw .ebadf

/-- Clears the set-id bits of the file of a handle after a write, if the guest asks. -/
def killAfterWrite (node fh : UInt64) (writeFlags : UInt32) : Fs Unit := do
  if has writeFlags fuseWriteKillSuidgid then
    let handle ← Proc.orThrow ((← Proc.get).handles.lookup fh) .ebadf
    clearSuidSgid handle.file
    Proc.modify (invalidateGuestAttr · node)

def writeReplyPayload (n : ℕ) : Bytes := putU32 (UInt32.ofNat n) ++ putU32 0

/-- WRITE. -/
def write (node : UInt64) (input : Bytes) : Fs Bytes := do
  requireWritable
  let fh ← u64At input 0
  let offset ← u64At input 8
  let size ← u32At input 16
  let writeFlags ← u32At input 20
  if maxWrite < size.toNat ∨ input.length < 40 + size.toNat then Proc.throw .einval
  else
    let handle ← Proc.orThrow ((← Proc.get).handles.lookup fh) .ebadf
    if !handle.writable then Proc.throw .ebadf
    else
      let n ← Io.writeAt handle.file ((input.drop 40).take size.toNat) offset
      killAfterWrite node fh writeFlags
      pure (writeReplyPayload n)

/-- Writes all of `data` from `base + written` on, a byte at least with each call; at most
`fuel` calls. -/
def writeAll (file : Fd) (base : UInt64) : ℕ → ℕ → Bytes → Fs Unit
  | 0, _, _ => pure ()
  | fuel + 1, written, data =>
    if data = [] then pure ()
    else do
      let n ← Io.writeAt file data (satAdd base (UInt64.ofNat written))
      if n = 0 then Proc.throw .eio
      else writeAll file base fuel (written + n) (data.drop n)

/-- Copies `requested - copied` bytes in chunks of at most `maxWrite`; at most `fuel`
chunks. -/
def copyChunks (source target : Fd) (sourceOffset targetOffset : UInt64) (requested : ℕ) :
    ℕ → ℕ → Fs ℕ
  | 0, copied => pure copied
  | fuel + 1, copied =>
    if requested ≤ copied then pure copied
    else do
      let want := min (requested - copied) maxWrite
      let data := (← Io.readAt source want (satAdd sourceOffset (UInt64.ofNat copied))).take want
      if data = [] then pure copied
      else
        writeAll target (satAdd targetOffset (UInt64.ofNat copied)) data.length 0 data
        let copied := copied + data.length
        if data.length < want then pure copied
        else copyChunks source target sourceOffset targetOffset requested fuel copied

def rangesOverlap (left right length : UInt64) : Bool :=
  if length = 0 then false
  else decide (left < satAdd right length) && decide (right < satAdd left length)

/-- COPY_FILE_RANGE, in pieces. -/
def copyFileRange (input : Bytes) : Fs Bytes := do
  requireWritable
  let sourceFh ← u64At input 0
  let sourceOffset ← u64At input 8
  let targetFh ← u64At input 24
  let targetOffset ← u64At input 32
  let requested := min (← u64At input 40) 0xffffffff
  let flags ← u64At input 48
  if flags ≠ 0 then Proc.throw .einval
  else
    let source ← Proc.orThrow ((← Proc.get).handles.lookup sourceFh) .ebadf
    let target ← Proc.orThrow ((← Proc.get).handles.lookup targetFh) .ebadf
    if !target.writable then Proc.throw .ebadf
    else
      let sourceStat ← Io.statOfFd source.file
      let targetStat ← Io.statOfFd target.file
      if sourceStat.key = targetStat.key ∧ rangesOverlap sourceOffset targetOffset requested then
        Proc.throw .einval
      else
        let copied ← copyChunks source.file target.file sourceOffset targetOffset requested.toNat
          (requested.toNat / maxWrite + 1) 0
        pure (putU32 (UInt32.ofNat copied) ++ putU32 0)

/-- Zeroes `[cursor, zeroEnd)` in chunks of at most `maxWrite`; at most `fuel` chunks. -/
def zeroChunks (file : Fd) (zeroEnd : UInt64) : ℕ → UInt64 → Fs Unit
  | 0, _ => pure ()
  | fuel + 1, cursor =>
    if zeroEnd ≤ cursor then pure ()
    else do
      let count := min (zeroEnd - cursor).toNat maxWrite
      writeAll file cursor count 0 (List.replicate count 0)
      zeroChunks file zeroEnd fuel (cursor + UInt64.ofNat count)

/-- Contiguous if it can be, and scattered otherwise. -/
def preallocate (file : Fd) (offset length : UInt64) : Fs Unit := do
  match ← Io.ask (.preallocate file true offset length) with
  | .ok () => pure ()
  | .error _ => Io.hostResult (← Io.ask (.preallocate file false offset length))

/-- Extends a file that ends before `endAt`. -/
def growTo (file : Fd) (endAt : UInt64) : Fs Unit := do
  let stat ← Io.statOfFd file
  if stat.size < endAt then Io.setLen file endAt

def hostFallocate (file : Fd) (offset length : UInt64) (mode : UInt32) : Fs Unit := do
  if has mode (fallocFlCollapseRange ||| fallocFlInsertRange ||| fallocFlUnshareRange) ||
      has mode (~~~(fallocFlKeepSize ||| fallocFlPunchHole ||| fallocFlZeroRange)) then
    Proc.throw .eopnotsupp
  else if length = 0 then Proc.throw .einval
  else if 2 ^ 64 ≤ offset.toNat + length.toNat then Proc.throw .efbig
  else if 2 ^ 63 ≤ offset.toNat ∨ 2 ^ 63 ≤ length.toNat then Proc.throw .efbig
  else
    let endAt := offset + length
    if has mode fallocFlPunchHole then
      if mode ≠ fallocFlPunchHole ||| fallocFlKeepSize then Proc.throw .eopnotsupp
      else Io.hostResult (← Io.ask (.punchHole file offset length))
    else if has mode fallocFlZeroRange then
      if has mode (~~~(fallocFlZeroRange ||| fallocFlKeepSize)) then Proc.throw .eopnotsupp
      let oldSize := (← Io.statOfFd file).size
      if has mode fallocFlKeepSize then
        let zeroEnd := min endAt oldSize
        zeroChunks file zeroEnd ((zeroEnd - offset).toNat / maxWrite + 1) offset
      else
        if oldSize < endAt then Io.setLen file endAt
        zeroChunks file endAt (length.toNat / maxWrite + 1) offset
    else
      preallocate file offset length
      if !has mode fallocFlKeepSize then growTo file endAt

/-- FALLOCATE. -/
def fallocate (input : Bytes) : Fs Bytes := do
  requireWritable
  let fh ← u64At input 0
  let offset ← u64At input 8
  let length ← u64At input 16
  let mode ← u32At input 24
  let handle ← Proc.orThrow ((← Proc.get).handles.lookup fh) .ebadf
  if !handle.writable then Proc.throw .ebadf
  else
    hostFallocate handle.file offset length mode
    pure []

def whenceOf (whence : UInt32) : Option Whence :=
  if whence = 0 then some .set
  else if whence = 1 then some .cur
  else if whence = 2 then some .end
  else if whence = 3 then some .data
  else if whence = 4 then some .hole
  else none

/-- LSEEK. -/
def lseek (input : Bytes) : Fs Bytes := do
  let fh ← u64At input 0
  let offset ← u64At input 8
  let whence ← u32At input 16
  let handle ← Proc.orThrow ((← Proc.get).handles.lookup fh) .ebadf
  let hostWhence ← Proc.orThrow (whenceOf whence) .einval
  if 2 ^ 63 ≤ offset.toNat then Proc.throw .efbig
  else
    let result ← Io.hostResult (← Io.ask (.lseek handle.file offset hostWhence))
    pure (putU64 result)

/-! ### Locks -/

/-- Records that a POSIX lock request went through `fh`. -/
def notePosixLock (s : VirtioFs) (fh : UInt64) (call : LockCall) : VirtioFs :=
  match call with
  | .posix _ => { s with handles := s.handles.update fh fun h => { h with locked := true } }
  | .flock _ => s

/-- What a SETLKW that will wait gives up first: a flock conversion is not atomic. -/
def yieldFlock (file : Fd) : LockCall → Fs Unit
  | .flock _ => do
    let _ ← Io.ask (.flock file .unlock false)
  | .posix _ => pure ()

/-- Makes one non-blocking lock call for a SETLK or SETLKW.  A lock another holder has fails
a SETLK and parks a SETLKW, which first gives up what a flock conversion would drop. -/
def settleLock (fh unique : UInt64) (call : LockCall) (wait : Bool) : Fs Bytes := do
  let handle ← Proc.orThrow ((← Proc.get).handles.lookup fh) .ebadf
  match ← Io.tryLock handle.file call with
  | .ok () =>
    Proc.modify (notePosixLock · fh call)
    pure []
  | .error (some errno) => Proc.throw errno
  | .error none =>
    if wait then
      yieldFlock handle.file call
      Proc.modify fun s => { s with lockToPark := some { unique, fh, call } }
      pure []
    else Proc.throw .eagain

def flockOpOf (lockType : UInt32) : Option FlockOp :=
  if lockType = linuxFRdlck then some .shared
  else if lockType = linuxFWrlck then some .exclusive
  else if lockType = linuxFUnlck then some .unlock
  else none

def linuxLockToHost (lockType : UInt32) : Option HostLockType :=
  if lockType = linuxFRdlck then some .rdlck
  else if lockType = linuxFWrlck then some .wrlck
  else if lockType = linuxFUnlck then some .unlck
  else none

def hostLockToLinux : HostLockType → Option UInt32
  | .rdlck => some linuxFRdlck
  | .wrlck => some linuxFWrlck
  | .unlck => some linuxFUnlck
  | .other => none

/-- The host's length for a range that ends at `end`, inclusively; 0 is through the end of
the file. -/
def hostLockLen (start endAt : UInt64) : Except Errno ℤ :=
  if 0x7fffffffffffffff ≤ endAt then .ok 0
  else if endAt < start then .error .einval
  else
    let len := satAdd (endAt - start) 1
    if len.toNat < 2 ^ 63 then .ok len.toNat else .error .efbig

/-- The range GETLK reports. -/
def lockRangeOut (lock : HostLock) : UInt64 × UInt64 :=
  let start := nonnegative lock.start
  (start, if lock.len = 0 then 0xffffffffffffffff
    else satSub (satAdd start (UInt64.ofNat (lock.len % 2 ^ 64).toNat)) 1)

/-- GETLK, SETLK and SETLKW. -/
def lock (input : Bytes) (opcode : Opcode) (unique : UInt64) : Fs Bytes := do
  let fh ← u64At input 0
  let start ← u64At input 16
  let endAt ← u64At input 24
  let lockType ← u32At input 32
  let _pid ← u32At input 36
  let flags ← u32At input 40
  let handle ← Proc.orThrow ((← Proc.get).handles.lookup fh) .ebadf
  if has flags fuseLkFlock then
    if opcode = .getlk then
      pure (putU64 start ++ putU64 endAt ++ putU32 linuxFUnlck ++ putU32 0)
    else
      let operation ← Proc.orThrow (flockOpOf lockType) .einval
      settleLock fh unique (.flock operation) (opcode = .setlkw)
  else if 2 ^ 63 ≤ start.toNat then Proc.throw .efbig
  else
    let len ← Proc.lift (hostLockLen start endAt)
    let type ← Proc.orThrow (linuxLockToHost lockType) .einval
    let hostLock : HostLock := { start := start.toNat, len, type }
    if opcode = .setlk ∨ opcode = .setlkw then
      settleLock fh unique (.posix hostLock) (opcode = .setlkw)
    else if opcode = .getlk then
      let found ← Io.hostResult (← Io.ask (.ofdGetlk handle.file hostLock))
      let type ← Proc.orThrow (hostLockToLinux found.type) .eio
      let (start, endAt) := lockRangeOut found
      pure (putU64 start ++ putU64 endAt ++ putU32 type ++
        putU32 (UInt32.ofNat (max found.pid 0).toNat))
    else Proc.throw .einval

/-! ### The rest -/

/-- POLL: a file is always ready. -/
def poll (input : Bytes) : Fs Bytes := do
  let fh ← u64At input 0
  let s ← Proc.get
  if (s.handles.lookup fh).isNone && (s.dirHandles.lookup fh).isNone then Proc.throw .ebadf
  else
    let events ← u32At input 20
    pure (putU32 events ++ putU32 0)

/-- The features the server takes part in, whatever the share. -/
def initFeatures : UInt32 :=
  -- async read, posix locks, atomic truncation, export support, big writes, flock, automatic
  -- invalidation, readdirplus and its automatic mode, max pages, killpriv, setxattr, dirops
  0x1 ||| 0x2 ||| 0x8 ||| 0x10 ||| 0x20 ||| 0x400 ||| 0x1000 ||| 0x2000 ||| 0x4000 |||
    0x400000 ||| 0x10000000 ||| 0x20000000 ||| 0x40000

def cacheSymlinks : UInt32 := 0x800000
def writebackCache : UInt32 := 0x10000

/-- The largest request in pages: what fits beside the lock waiters' quarter of the smaller
programmed ring. -/
def maxPages (s : VirtioFs) : UInt32 :=
  let sizes := ([(0 : Fin 2), 1].map fun i => (s.transport.queues i).size).filter (· != 0)
  let full : ℕ := maxWrite / 4096
  match sizes.min? with
  | none => UInt32.ofNat full
  | some ring => UInt32.ofNat (min full (max (ring.toNat - LockWaiter.cap ring - 4) 1))

/-- INIT. -/
def init (input : Bytes) : Fs Bytes := do
  let major ← u32At input 0
  let minor ← u32At input 4
  let readahead := (getU32 input 8).getD 0
  let guestFlags := (getU32 input 12).getD 0
  let s ← Proc.get
  if major ≠ 7 then pure (putU32 7 ++ putU32 39)
  else
    let supported := initFeatures |||
      (if !s.writable || s.cachePolicy != .none then cacheSymlinks else 0) |||
      (if s.writable && s.cachePolicy == .always then writebackCache else 0)
    let pages := s.maxPages
    pure (padTo (putU32 7 ++ putU32 (min minor 39) ++ putU32 readahead ++
      putU32 (guestFlags &&& supported) ++ putU16 64 ++ putU16 48 ++ putU32 (pages * 4096) ++
      putU32 1 ++ putU16 pages.toUInt16 ++ putU16 0 ++ putU32 0) 64)

end VirtioFs
