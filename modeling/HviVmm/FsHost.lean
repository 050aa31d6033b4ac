/-
The host calls of the virtio-fs server (`devices::virtio::fs::server`, the macOS
build).

The server reaches the host through a fixed set of calls.  `HostOp` lists them with
their arguments, and `HostOp.Ans` says what each is answered with.  A descriptor
carries, beside its number, how it was obtained; nothing reads that back, it is
what the statements about containment are about.

The workers that prepare listings run beside the server.  The server's dealings
with them (`Readahead::request`, `take` and `invalidate`) are calls too, since what
they answer depends on what the workers have done meanwhile.

Calls that the source repeats while they are interrupted (`retry_on_interrupt`,
`preadv_retry`, `pwritev_retry`) are one call here: the answer is the one the
repetition ended with.
-/
import HviVmm.CallPrograms
import HviVmm.FsWire

open CallPrograms Fuse

/-- The host's error numbers, by name. -/
inductive HostErr where
  | eperm | enoent | eintr | enxio | ebadf | eagain | enomem | eacces | ebusy | eexist | exdev
  | enotdir | eisdir | einval | enfile | emfile | enotty | etxtbsy | efbig | enospc | erofs
  | emlink | erange | edeadlk | enametoolong | enolck | enosys | enotempty | eloop | enoattr
  | eoverflow | eopnotsupp | estale | edquot | other
  deriving DecidableEq, Repr

/-- `io_errno`: what the guest is told.  An error it has no number for is `EIO`. -/
def ioErrno : HostErr → Errno
  | .eperm => .eperm | .enoent => .enoent | .enxio => .enxio | .ebadf => .ebadf
  | .eagain => .eagain | .enomem => .enomem | .eacces => .eacces | .ebusy => .ebusy
  | .eexist => .eexist | .exdev => .exdev | .enotdir => .enotdir | .eisdir => .eisdir
  | .einval => .einval | .enfile => .enfile | .emfile => .emfile | .enotty => .enotty
  | .etxtbsy => .etxtbsy | .efbig => .efbig | .enospc => .enospc | .erofs => .erofs
  | .emlink => .emlink | .erange => .erange | .edeadlk => .edeadlk
  | .enametoolong => .enametoolong | .enolck => .enolck | .enosys => .enosys
  | .enotempty => .enotempty | .eloop => .eloop | .enoattr => .enodata
  | .eoverflow => .eoverflow | .eopnotsupp => .eopnotsupp | .estale => .estale
  | .edquot => .edquot | .eintr => .eio | .other => .eio

/-- How a file is opened. -/
inductive AccessMode where
  | rdonly
  | wronly
  | rdwr
  deriving DecidableEq, Repr

/-- The flags of an open. -/
structure OpenFlags where
  access : AccessMode := .rdonly
  directory : Bool := false
  nofollow : Bool := false
  /-- `O_SYMLINK`: a symlink is opened itself. -/
  symlink : Bool := false
  nonblock : Bool := false
  noctty : Bool := false
  append : Bool := false
  trunc : Bool := false
  creat : Bool := false
  excl : Bool := false
  cloexec : Bool := true
  deriving DecidableEq, Repr

/-- How a descriptor was obtained: it is the export's root, it was opened by a name
under another one, or it is a duplicate. -/
inductive Origin where
  | root
  | opened (dir : Origin) (name : Name) (flags : OpenFlags)
  | dup (of : Origin)
  deriving DecidableEq, Repr

/-- A host descriptor. -/
structure Fd where
  num : ℕ
  origin : Origin
  deriving DecidableEq, Repr

/-- `struct stat`, as far as the server reads it. -/
structure Stat where
  dev : UInt64
  ino : UInt64
  mode : UInt32
  nlink : UInt32 := 1
  uid : UInt32 := 0
  gid : UInt32 := 0
  size : UInt64 := 0
  blocks : UInt64 := 0
  blksize : UInt32 := 4096
  atime : ℤ × ℤ := (0, 0)
  mtime : ℤ × ℤ := (0, 0)
  ctime : ℤ × ℤ := (0, 0)
  birthtime : ℤ × ℤ := (0, 0)
  deriving DecidableEq, Repr

namespace Stat

def key (stat : Stat) : UInt64 × UInt64 := (stat.dev, stat.ino)
def fileKind (stat : Stat) : UInt32 := stat.mode &&& sIfmt
def isDir (stat : Stat) : Bool := stat.fileKind == sIfdir
def isFile (stat : Stat) : Bool := stat.fileKind == sIfreg
def isSymlink (stat : Stat) : Bool := stat.fileKind == sIflnk

end Stat

/-- What `fstatvfs` answers. -/
structure StatVfs where
  blocks : UInt64
  bfree : UInt64
  bavail : UInt64
  files : UInt64
  ffree : UInt64
  bsize : UInt32
  namemax : UInt32
  frsize : UInt32
  deriving DecidableEq, Repr

/-- A record of a directory stream. -/
structure Dirent where
  name : Name
  ino : UInt64
  dtype : UInt32
  deriving DecidableEq, Repr

/-- One of the two times `futimens` and `utimensat` take. -/
inductive TimeSpec where
  | now
  | omit
  | at (seconds : UInt64) (nanos : UInt32)
  deriving DecidableEq, Repr

/-- What `flock` is asked for. -/
inductive FlockOp where
  | shared
  | exclusive
  | unlock
  deriving DecidableEq, Repr

/-- The type of a range lock. -/
inductive HostLockType where
  | rdlck
  | wrlck
  | unlck
  | other
  deriving DecidableEq, Repr

/-- `struct flock` of a lock from the start of the file. -/
structure HostLock where
  start : ℤ
  len : ℤ
  type : HostLockType
  pid : ℤ := 0
  deriving DecidableEq, Repr

/-- The host call that settles a lock request, always non-blocking. -/
inductive LockCall where
  | flock (operation : FlockOp)
  | posix (lock : HostLock)
  deriving DecidableEq, Repr

/-- Where a seek starts. -/
inductive Whence where
  | set
  | cur
  | «end»
  | data
  | hole
  deriving DecidableEq, Repr

/-- The guest-visible owner and mode of a file, as the private attribute stores it. -/
structure GuestAttr where
  mode : UInt32
  uid : UInt32
  gid : UInt32
  deriving DecidableEq, Repr

/-- One directory entry of a listing. -/
structure DirEntryInfo where
  name : Name
  ino : UInt64
  dtype : UInt32
  deriving DecidableEq, Repr

/-- One host entry a readahead worker prepared. -/
structure PreparedEntry where
  info : DirEntryInfo
  stat : Stat
  guest : Option GuestAttr
  deriving DecidableEq, Repr

/-- A directory listing a readahead worker prepared.  `born` is when its first host
read was made, on the clock of a run; no code reads it. -/
structure PreparedDir where
  ctime : ℤ × ℤ
  readAt : ℕ
  entries : List PreparedEntry
  born : ℕ
  deriving DecidableEq, Repr

/-- The calls the server makes. -/
inductive HostOp where
  | openat (dir : Fd) (name : Name) (flags : OpenFlags) (mode : UInt32)
  | dupfd (fd : Fd)
  | fstat (fd : Fd)
  | fstatat (dir : Fd) (name : Name)
  | faccessat (dir : Fd) (name : Name)
  | readlinkat (dir : Fd) (name : Name) (size : ℕ)
  | readDir (fd : Fd)
  | fstatvfs (fd : Fd)
  | mkdirat (dir : Fd) (name : Name) (mode : UInt32)
  | mkfifoat (dir : Fd) (name : Name) (mode : UInt32)
  | symlinkat (target : Bytes) (dir : Fd) (name : Name)
  | unlinkat (dir : Fd) (name : Name) (directory : Bool)
  | linkat (oldDir : Fd) (old : Name) (newDir : Fd) (new : Name)
  | renameat (oldDir : Fd) (old : Name) (newDir : Fd) (new : Name)
  | renameatx (oldDir : Fd) (old : Name) (newDir : Fd) (new : Name) (exchange : Bool)
  | fchmodat (dir : Fd) (name : Name) (mode : UInt32)
  | utimensat (dir : Fd) (name : Name) (atime mtime : TimeSpec)
  | fchmod (fd : Fd) (mode : UInt32)
  | futimens (fd : Fd) (atime mtime : TimeSpec)
  | ftruncate (fd : Fd) (size : UInt64)
  | pread (fd : Fd) (len : ℕ) (offset : UInt64)
  | pwrite (fd : Fd) (data : Bytes) (offset : UInt64)
  | preadv (fd : Fd) (lens : List ℕ) (offset : UInt64)
  | pwritev (fd : Fd) (data : List Bytes) (offset : UInt64)
  | preallocate (fd : Fd) (contiguous : Bool) (offset length : UInt64)
  | punchHole (fd : Fd) (offset length : UInt64)
  | fgetxattrSize (fd : Fd) (name : Name)
  | fgetxattr (fd : Fd) (name : Name) (size : ℕ)
  | fsetxattr (fd : Fd) (name : Name) (value : Bytes) (create replace : Bool)
  | flistxattrSize (fd : Fd)
  | flistxattr (fd : Fd) (size : ℕ)
  | fremovexattr (fd : Fd) (name : Name)
  | syncAll (fd : Fd)
  | syncData (fd : Fd)
  | syncVolume
  | flock (fd : Fd) (operation : FlockOp) (nonblocking : Bool)
  | ofdSetlk (fd : Fd) (lock : HostLock)
  | ofdGetlk (fd : Fd) (lock : HostLock)
  | lseek (fd : Fd) (offset : UInt64) (whence : Whence)
  | now
  | clockWithSleep
  | raRequest (path : PathBuf) (parent : Fd) (name : Name)
  | raTake (path : PathBuf)
  | raInvalidate
  /-- A worker's look at the flag that tells it to exit. -/
  | stopping
  deriving DecidableEq

namespace HostOp

/-- What a call is answered with. -/
def Ans : HostOp → Type
  | openat .. | dupfd .. | pwrite .. | pwritev .. | fgetxattrSize .. | flistxattrSize .. =>
    Except HostErr ℕ
  | fstat .. | fstatat .. => Except HostErr Stat
  | readlinkat .. | pread .. | preadv .. | fgetxattr .. | flistxattr .. => Except HostErr Bytes
  | readDir .. => Except HostErr (List Dirent)
  | fstatvfs .. => Except HostErr StatVfs
  | ofdGetlk .. => Except HostErr HostLock
  | lseek .. => Except HostErr UInt64
  | now => UInt64 × UInt32
  | clockWithSleep => ℕ
  | raTake .. => Option PreparedDir
  | raRequest .. | raInvalidate => Unit
  | stopping => Bool
  | _ => Except HostErr Unit

/-- The directory and name pairs a call resolves. -/
def entries : HostOp → List (Fd × Name)
  | openat dir name _ _ | fstatat dir name | faccessat dir name | readlinkat dir name _
  | mkdirat dir name _ | mkfifoat dir name _ | symlinkat _ dir name | unlinkat dir name _
  | fchmodat dir name _ | utimensat dir name _ _ => [(dir, name)]
  | linkat oldDir old newDir new | renameat oldDir old newDir new
  | renameatx oldDir old newDir new _ => [(oldDir, old), (newDir, new)]
  | _ => []

/-- Whether a call may create, remove, rename, write, truncate, allocate or change
attributes or extended attributes of something in the tree. -/
def mutates : HostOp → Bool
  | openat _ _ flags _ => flags.creat || flags.trunc
  | mkdirat .. | mkfifoat .. | symlinkat .. | unlinkat .. | linkat .. | renameat ..
  | renameatx .. | fchmodat .. | utimensat .. | fchmod .. | futimens .. | ftruncate ..
  | pwrite .. | pwritev .. | preallocate .. | punchHole .. | fsetxattr .. | fremovexattr .. =>
    true
  | _ => false

/-- Whether a call gives the workers something to do or takes what they did. -/
def isReadahead : HostOp → Bool
  | raRequest .. | raTake .. | raInvalidate => true
  | _ => false

end HostOp

abbrev HostCall := Call HostOp HostOp.Ans

/-- A computation that calls the host and keeps a state `σ`. -/
abbrev Io (σ : Type) := Proc σ Errno HostOp HostOp.Ans

namespace Io

variable {σ : Type} {α : Type}

/-- Makes one host call. -/
def ask (op : HostOp) : Io σ op.Ans := Proc.ask op

/-- A host error is reported as the guest's. -/
def hostResult (r : Except HostErr α) : Io σ α := Proc.lift (r.mapError ioErrno)

/-! ### Opening -/

def openDirFlags : OpenFlags := { directory := true, nofollow := true }

/-- Opens a directory without following a symlink in its final component. -/
def openDirNofollowAt (dir : Fd) (name : Name) : Io σ Fd := do
  let name ← Proc.lift (cstring name)
  let num ← hostResult (← ask (.openat dir name openDirFlags 0))
  pure ⟨num, .opened dir.origin name openDirFlags⟩

def entryFlags : OpenFlags := { nonblock := true, nofollow := true }
def symlinkFlags : OpenFlags := { nonblock := true, symlink := true }

/-- Opens an entry for attribute work, following nothing: a symlink refuses the
first open and is then opened itself. -/
def openEntryNofollow (dir : Fd) (name : Name) : Io σ Fd := do
  match ← ask (.openat dir name entryFlags 0) with
  | .ok num => pure ⟨num, .opened dir.origin name entryFlags⟩
  | .error .eloop =>
    let num ← hostResult (← ask (.openat dir name symlinkFlags 0))
    pure ⟨num, .opened dir.origin name symlinkFlags⟩
  | .error err => Proc.throw (ioErrno err)

/-- Translates the guest's open flags.  The fourth access mode is reserved. -/
def hostOpenFlags (flags : UInt32) (create : Bool) : Except Errno OpenFlags :=
  let base (access : AccessMode) : OpenFlags :=
    { access, noctty := true, append := has flags linuxOAppend, trunc := has flags linuxOTrunc
      creat := create, excl := create && has flags linuxOExcl, nofollow := true, nonblock := true }
  if flags &&& linuxOAccmode = 0 then .ok (base .rdonly)
  else if flags &&& linuxOAccmode = linuxOWronly then .ok (base .wronly)
  else if flags &&& linuxOAccmode = linuxORdwr then .ok (base .rdwr)
  else .error .einval

/-- Opens a file relative to a directory descriptor. -/
def openHostFileAt (dir : Fd) (name : Name) (flags : UInt32) (create : Bool) (mode : UInt32) :
    Io σ Fd := do
  let hostFlags ← Proc.lift (hostOpenFlags flags create)
  let num ← hostResult (← ask (.openat dir name hostFlags (mode &&& 0o7777)))
  pure ⟨num, .opened dir.origin name hostFlags⟩

/-- Duplicates a descriptor, close-on-exec. -/
def dupCloexec (fd : Fd) : Io σ Fd := do
  let num ← hostResult (← ask (.dupfd fd))
  pure ⟨num, .dup fd.origin⟩

/-! ### Looking -/

def statAt (dir : Fd) (name : Name) : Io σ Stat := do
  hostResult (← ask (.fstatat dir name))

def statOfFd (fd : Fd) : Io σ Stat := do
  hostResult (← ask (.fstat fd))

def existsAt (dir : Fd) (name : Name) : Io σ Unit := do
  hostResult (← ask (.faccessat dir name))

/-- The errno for a failed open whose target is a type the device refuses. -/
def openFailureErrnoAt (dir : Fd) (name : Name) (err : Errno) : Io σ Errno := do
  match ← (statAt dir name).attempt with
  | .ok stat =>
    if stat.isDir then pure .eisdir
    else if !stat.isFile then pure .eperm
    else pure err
  | .error _ => pure err

/-- Reads a symlink with a buffer of `size` bytes, and again with one twice the size
while the target fills it. -/
def readLinkFrom (dir : Fd) (name : Name) : ℕ → ℕ → Io σ Bytes
  | 0, _ => Proc.throw .enametoolong
  | tries + 1, size => do
    let target ← hostResult (← ask (.readlinkat dir name size))
    if target.length < size then pure target
    else readLinkFrom dir name tries (size * 2)

/-- The sizes tried are 256, 512, …, 65536. -/
def readLinkAt (dir : Fd) (name : Name) : Io σ Bytes := readLinkFrom dir name 9 256

/-- A type the readdir reply can carry; anything else is a stat's job. -/
def knownDtype (dtype : UInt32) : UInt32 :=
  if dtype ∈ [dtFifo, dtChr, dtDir, dtBlk, dtReg, dtLnk, dtSock] then dtype else dtUnknown

/-- Lists a directory through a descriptor, without `.` and `..`. -/
def readDirAt (fd : Fd) : Io σ (List DirEntryInfo) := do
  let records ← hostResult (← ask (.readDir fd))
  pure ((records.filter fun r => r.name ≠ dot ∧ r.name ≠ dotdot).map fun r =>
    { name := r.name, ino := r.ino, dtype := knownDtype r.dtype })

/-! ### Changing entries -/

def mkdirAt (dir : Fd) (name : Name) (mode : UInt32) : Io σ Unit := do
  hostResult (← ask (.mkdirat dir name mode))

def mkfifoAt (dir : Fd) (name : Name) (mode : UInt32) : Io σ Unit := do
  hostResult (← ask (.mkfifoat dir name (mode &&& 0o7777)))

def symlinkAt (target : Bytes) (dir : Fd) (name : Name) : Io σ Unit := do
  let target ← Proc.lift (cstring target)
  hostResult (← ask (.symlinkat target dir name))

def unlinkAt (dir : Fd) (name : Name) (directory : Bool) : Io σ Unit := do
  hostResult (← ask (.unlinkat dir name directory))

def chmodAt (dir : Fd) (name : Name) (mode : UInt32) : Io σ Unit := do
  hostResult (← ask (.fchmodat dir name mode))

def hostLink (oldDir : Fd) (old : Name) (newDir : Fd) (new : Name) : Io σ Unit := do
  hostResult (← ask (.linkat oldDir old newDir new))

def hostRename (oldDir : Fd) (old : Name) (newDir : Fd) (new : Name) (flags : UInt32) :
    Io σ Unit := do
  if flags = 0 then hostResult (← ask (.renameat oldDir old newDir new))
  else hostResult (← ask (.renameatx oldDir old newDir new (has flags renameExchange)))

def hostLutimensAt (dir : Fd) (name : Name) (times : TimeSpec × TimeSpec) : Io σ Unit := do
  hostResult (← ask (.utimensat dir name times.1 times.2))

/-! ### Changing files -/

def setLen (fd : Fd) (size : UInt64) : Io σ Unit := do
  hostResult (← ask (.ftruncate fd size))

def setPermissions (fd : Fd) (mode : UInt32) : Io σ Unit := do
  hostResult (← ask (.fchmod fd mode))

def hostFutimens (fd : Fd) (times : TimeSpec × TimeSpec) : Io σ Unit := do
  hostResult (← ask (.futimens fd times.1 times.2))

def readAt (fd : Fd) (len : ℕ) (offset : UInt64) : Io σ Bytes := do
  hostResult (← ask (.pread fd len offset))

def writeAt (fd : Fd) (data : Bytes) (offset : UInt64) : Io σ ℕ := do
  hostResult (← ask (.pwrite fd data offset))

/-- `sync_all`, or `sync_data` when the guest asks for the data alone. -/
def syncFile (fd : Fd) (flags : UInt32) : Io σ Unit := do
  if has flags fuseFsyncFdatasync then hostResult (← ask (.syncData fd))
  else hostResult (← ask (.syncAll fd))

/-! ### Extended attributes -/

def xattrName (name : Name) : Except Errno Name :=
  if name = [] ∨ slash ∈ name then .error .einval else cstring name

def fdGetxattr (fd : Fd) (name : Name) : Io σ Bytes := do
  let name ← Proc.lift (xattrName name)
  let needed ← hostResult (← ask (.fgetxattrSize fd name))
  hostResult (← ask (.fgetxattr fd name needed))

def fdSetxattr (fd : Fd) (name : Name) (value : Bytes) (flags : UInt32) : Io σ Unit := do
  let name ← Proc.lift (xattrName name)
  let create := has flags linuxXattrCreate
  hostResult (← ask (.fsetxattr fd name value create (!create && has flags linuxXattrReplace)))

def fdListxattr (fd : Fd) : Io σ Bytes := do
  let needed ← hostResult (← ask (.flistxattrSize fd))
  hostResult (← ask (.flistxattr fd needed))

def fdRemovexattr (fd : Fd) (name : Name) : Io σ Unit := do
  let name ← Proc.lift (xattrName name)
  hostResult (← ask (.fremovexattr fd name))

/-- `com.nofire.hvi.` -/
def hviXattrPre : Name :=
  [99, 111, 109, 46, 110, 111, 102, 105, 114, 101, 46, 104, 118, 105, 46]

/-- `com.nofire.hvi.linux-attr` -/
def hviXattrLinuxAttr : Name :=
  hviXattrPre ++ [108, 105, 110, 117, 120, 45, 97, 116, 116, 114]

def guestAttrLen : ℕ := 12

def isPrivateXattr (name : Name) : Bool := hviXattrPre.isPrefixOf name

/-- The NUL-terminated names of `value` without the private ones. -/
def filterPrivateXattrs (value : Bytes) : Bytes :=
  ((value.splitOn 0).filter fun name => name ≠ [] ∧ ¬ isPrivateXattr name).flatMap
    fun name => name ++ [0]

def setGuestAttr (fd : Fd) (guest : GuestAttr) : Io σ Unit :=
  fdSetxattr fd hviXattrLinuxAttr
    (putU32 (guest.mode &&& 0o177777) ++ putU32 guest.uid ++ putU32 guest.gid) 0

def decodeGuestAttr (value : Bytes) : Option GuestAttr :=
  if value.length = guestAttrLen then do
    some ⟨← getU32 value 0, ← getU32 value 4, ← getU32 value 8⟩
  else none

/-- The stored attribute; one that cannot be read, or is not of the right length, is
none. -/
def storedGuestAttr (fd : Fd) : Io σ (Option GuestAttr) := do
  match ← ask (.fgetxattr fd hviXattrLinuxAttr guestAttrLen) with
  | .ok value => pure (decodeGuestAttr value)
  | .error _ => pure none

/-! ### Locks -/

/-- Makes one non-blocking lock call.  `none` means another holder has the lock. -/
def tryLock (fd : Fd) (call : LockCall) : Io σ (Except (Option Errno) Unit) := do
  match call with
  | .flock operation =>
    match ← ask (.flock fd operation true) with
    | .ok () => pure (.ok ())
    | .error .eagain => pure (.error none)
    | .error err => pure (.error (some (ioErrno err)))
  | .posix lock =>
    match ← ask (.ofdSetlk fd lock) with
    | .ok () => pure (.ok ())
    | .error .eagain => pure (.error none)
    | .error .eacces => pure (.error none)
    | .error err => pure (.error (some (ioErrno err)))

end Io
