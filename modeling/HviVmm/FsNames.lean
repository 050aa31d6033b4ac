/-
The requests about names and attributes (`devices::virtio::fs::server`): LOOKUP, GETATTR,
STATX, SETATTR, ACCESS, READLINK, the creations, LINK, UNLINK, RMDIR, RENAME, STATFS and the
extended attributes.

Each handler takes the node and the payload of the request and returns the payload of the
reply, or fails with the error the guest is told.  A request that changes the tree starts
with `requireWritable`.
-/
import HviVmm.FsNodes

open CallPrograms Fuse

namespace VirtioFs

/-- A field the payload must have. -/
def u32At (input : Bytes) (offset : ℕ) : Fs UInt32 := Proc.orThrow (getU32 input offset) .einval

def u64At (input : Bytes) (offset : ℕ) : Fs UInt64 := Proc.orThrow (getU64 input offset) .einval

/-! ### Looking -/

/-- LOOKUP. -/
def lookup (parent : UInt64) (input : Bytes) : Fs Bytes := do
  let len ← Proc.orThrow (input.idxOf? 0) .einval
  let name := input.take len
  if name = [] ∨ slash ∈ name then Proc.throw .einval
  else
    let parentPath ← nodePath parent
    let root := (← Proc.get).root
    let path :=
      if name = dot then parentPath
      else if name = dotdot then
        if parentPath = root then root else parentPath.parent.getD root
      else parentPath.join name
    -- a socket this device holds has no host entry to stat
    match (← Proc.get).sockets.lookup path with
    | some socket =>
      let node ← Proc.modifyGet fun s => s.socketNodeId path socket.ino
      Proc.modify (rememberLookup · node)
      pure (socketEntryOut node socket)
    | none =>
      match ← (statInExport path).attempt with
      | .ok stat =>
        let node ← nodeFor path stat
        Proc.modify (rememberLookup · node)
        entryOut node stat
      | .error err =>
        let secs := (← Proc.get).negativeCacheSeconds
        if err = .enoent ∧ secs > 0 then pure (negativeEntryOut secs) else Proc.throw err

/-- The stat GETATTR and STATX answer with, without the fallback of GETATTR: through the
handle the request carries, through some handle of a node without a name, or by path. -/
def statOfNode (node : UInt64) (flags : UInt32) (fh : UInt64) (byPath : PathBuf → Fs Stat) :
    Fs Stat := do
  let s ← Proc.get
  if has flags fuseGetattrFh then
    let handle ← Proc.orThrow (s.handles.lookup fh) .ebadf
    Io.statOfFd handle.file
  else if s.isOrphan node then
    let (_, handle) ← Proc.orThrow (s.handleOfNode node) .enoent
    Io.statOfFd handle.file
  else byPath (← nodePath node)

/-- A file unlinked on the host while the guest holds it open is found through a handle. -/
def statOrHandle (node : UInt64) (path : PathBuf) : Fs Stat := do
  match ← (statInExport path).attempt with
  | .ok stat => pure stat
  | .error .enoent =>
    let (_, handle) ← Proc.orThrow ((← Proc.get).handleOfNode node) .enoent
    Io.statOfFd handle.file
  | .error err => Proc.throw err

/-- GETATTR. -/
def getattr (node : UInt64) (input : Bytes) : Fs Bytes := do
  match (← Proc.get).socketAt node with
  | some (_, socket) => pure (socketAttrOut node socket)
  | none =>
    let flags := (getU32 input 0).getD 0
    let fh := (getU64 input 8).getD 0
    attrOut node (← statOfNode node flags fh (statOrHandle node))

/-- STATX. -/
def statx (node : UInt64) (input : Bytes) : Fs Bytes := do
  let flags ← u32At input 0
  let fh ← u64At input 8
  let stat ← statOfNode node flags fh statInExport
  let guest ← guestAttr node stat
  pure (statxOut node stat (← Proc.get).cacheSeconds guest)

/-- READLINK. -/
def readlink (node : UInt64) : Fs Bytes := do
  let (dirfd, name) ← entryAt node
  Io.readLinkAt dirfd name

/-- ACCESS. -/
def access (node : UInt64) (input : Bytes) : Fs Bytes := do
  let mask ← u32At input 0
  if (← relativeOf node) ≠ [] then
    let (dirfd, name) ← entryAt node
    Io.existsAt dirfd name
  if has mask 2 && !(← Proc.get).writable then Proc.throw .erofs else pure []

/-- STATFS. -/
def statfs : Fs Bytes := do
  let stats ← Io.hostResult (← Io.ask (.fstatvfs (← Proc.get).dirs.root))
  pure (padTo (putU64 stats.blocks ++ putU64 stats.bfree ++ putU64 stats.bavail ++
    putU64 stats.files ++ putU64 stats.ffree ++ putU32 stats.bsize ++ putU32 stats.namemax ++
    putU32 stats.frsize ++ putU32 0) 80)

/-! ### Setting attributes -/

/-- A field the request carries if a bit says so, and what there was otherwise. -/
def fieldOr {α : Type} (given : Bool) (field : Fs α) (old : α) : Fs α :=
  if given then field else pure old

/-- The time a SETATTR of a socket sets; it has only one. -/
def socketTime (valid : UInt32) (input : Bytes) (old : UInt64 × UInt32) : Fs (UInt64 × UInt32) :=
  if has valid (fattrMtimeNow ||| fattrAtimeNow) then Io.ask .now
  else if has valid fattrMtime then do pure (← u64At input 40, ← u32At input 60)
  else if has valid fattrAtime then do pure (← u64At input 32, ← u32At input 56)
  else pure old

/-- A chmod, chown or touch of a socket updates the record in the device. -/
def setattrSocket (node : UInt64) (valid : UInt32) (input : Bytes) (path : PathBuf)
    (socket : SocketNode) : Fs Bytes := do
  let mode ← fieldOr (has valid fattrMode)
    (do pure (sIfsock ||| ((← u32At input 68) &&& 0o7777))) socket.mode
  let uid ← fieldOr (has valid fattrUid) (u32At input 76) socket.uid
  let gid ← fieldOr (has valid fattrGid) (u32At input 80) socket.gid
  let time ← socketTime valid input socket.time
  let socket := { socket with mode, uid, gid, time }
  Proc.modify fun s => { s with sockets := s.sockets.insert path socket }
  pure (socketAttrOut node socket)

/-- What SETATTR changes: an open handle, or an entry by its parent's descriptor and name
with a descriptor of its own for the private attribute. -/
inductive AttrTarget where
  | handle (handle : FileHandle)
  | entry (dirfd : Fd) (name : Name) (fd : Fd)

namespace AttrTarget

/-- The descriptor the private attribute is read and written through. -/
def metaFd : AttrTarget → Fd
  | handle h => h.file
  | entry _ _ fd => fd

def stat : AttrTarget → Fs Stat
  | handle h => Io.statOfFd h.file
  | entry dirfd name _ => Io.statAt dirfd name

end AttrTarget

/-- What a SETATTR is for. -/
def attrTarget (node : UInt64) (valid : UInt32) (fh : UInt64) : Fs AttrTarget := do
  if has valid fattrFh then
    pure (.handle (← Proc.orThrow ((← Proc.get).handles.lookup fh) .ebadf))
  else
    let relative ← relativeOfPath (← nodePath node)
    let name ← lastName relative
    let dirfd ← onDirs (DirCache.dirFdOwned (relative.parent.getD []))
    pure (.entry dirfd name (← Io.openEntryNofollow dirfd name))

/-- The new size. -/
def setattrSize (target : AttrTarget) (size : UInt64) : Fs Unit :=
  match target with
  | .handle h => if !h.writable then Proc.throw .ebadf else Io.setLen h.file size
  | .entry dirfd name _ => do
    Io.setLen (← Io.openHostFileAt dirfd name linuxOWronly false 0) size

/-- The new owner, kept beside the file. -/
def setattrOwner (target : AttrTarget) (valid uid gid : UInt32) : Fs Unit := do
  let current ← target.stat
  let guest ← guestAttrOfFd target.metaFd current
  Io.setGuestAttr target.metaFd
    { guest with
      uid := if has valid fattrUid then uid else guest.uid
      gid := if has valid fattrGid then gid else guest.gid }

/-- The host's side of a mode change; a symlink has no mode of its own. -/
def setHostMode (target : AttrTarget) (current : Stat) (newMode : UInt32) : Fs Unit :=
  if current.isSymlink then pure ()
  else
    let hostMode := hostCreationMode newMode current.isDir ||| (current.mode &&& 0o6000)
    match target with
    | .handle h => Io.setPermissions h.file hostMode
    | .entry dirfd name _ => Io.chmodAt dirfd name hostMode

/-- The host copy of a setuid or setgid bit is left as found. -/
def setattrMode (target : AttrTarget) (valid mode : UInt32) : Fs Unit := do
  let current ← target.stat
  let newMode ←
    if has valid fattrMode then pure (mode &&& 0o7777)
    else do pure ((← guestAttrOfFd target.metaFd current).mode &&& 0o7777)
  let newMode := if has valid fattrKillSuidgid then newMode &&& ~~~(0o6000 : UInt32) else newMode
  setHostMode target current newMode
  let guest ← guestAttrOfFd target.metaFd current
  Io.setGuestAttr target.metaFd { guest with mode := (current.mode &&& sIfmt) ||| newMode }

/-- One of the two times; an explicit one is checked. -/
def fuseTime (valid now : Bool) (seconds : UInt64) (nanos : UInt32) : Except Errno TimeSpec :=
  if now then .ok .now
  else if !valid then .ok .omit
  else if 1000000000 ≤ nanos ∨ 0x7fffffffffffffff < seconds then .error .einval
  else .ok (.at seconds nanos)

def fuseTimes (valid : UInt32) (atime : UInt64) (atimeNsec : UInt32) (mtime : UInt64)
    (mtimeNsec : UInt32) : Except Errno (TimeSpec × TimeSpec) := do
  let a ← fuseTime (has valid fattrAtime) (has valid fattrAtimeNow) atime atimeNsec
  let m ← fuseTime (has valid fattrMtime) (has valid fattrMtimeNow) mtime mtimeNsec
  pure (a, m)

/-- The new times. -/
def setattrTimes (target : AttrTarget) (times : Except Errno (TimeSpec × TimeSpec)) : Fs Unit := do
  let times ← Proc.lift times
  match target with
  | .handle h => Io.hostFutimens h.file times
  | .entry dirfd name _ => Io.hostLutimensAt dirfd name times

def fattrKnown : UInt32 :=
  fattrMode ||| fattrUid ||| fattrGid ||| fattrSize ||| fattrAtime ||| fattrMtime ||| fattrFh |||
    fattrAtimeNow ||| fattrMtimeNow ||| fattrLockowner ||| fattrCtime ||| fattrKillSuidgid

/-- The flags and handle of a SETATTR: a node without a name is changed through a handle of
it. -/
def handleForOrphan (node : UInt64) (valid : UInt32) (fh : UInt64) : Fs (UInt32 × UInt64) := do
  let s ← Proc.get
  if !has valid fattrFh && s.isOrphan node then
    let (found, _) ← Proc.orThrow (s.handleOfNode node) .enoent
    pure (valid ||| fattrFh, found)
  else pure (valid, fh)

/-- SETATTR of a host file: size, owner, mode and times, in that order. -/
def setattrHost (node : UInt64) (valid : UInt32) (input : Bytes) : Fs Bytes := do
  let (valid, fh) ← handleForOrphan node valid (← u64At input 8)
  let size ← u64At input 16
  let atime ← u64At input 32
  let mtime ← u64At input 40
  let atimeNsec ← u32At input 56
  let mtimeNsec ← u32At input 60
  let mode ← u32At input 68
  let uid ← u32At input 76
  let gid ← u32At input 80
  if has valid (~~~fattrKnown) then Proc.throw .einval
  else
    let target ← attrTarget node valid fh
    if has valid fattrSize then setattrSize target size
    if has valid (fattrUid ||| fattrGid) then setattrOwner target valid uid gid
    if has valid (fattrMode ||| fattrKillSuidgid) then setattrMode target valid mode
    if has valid (fattrAtime ||| fattrMtime ||| fattrAtimeNow ||| fattrMtimeNow) then
      setattrTimes target (fuseTimes valid atime atimeNsec mtime mtimeNsec)
    let stat ← target.stat
    Proc.modify (invalidateGuestAttr · node)
    attrOut node stat

/-- SETATTR. -/
def setattr (node : UInt64) (input : Bytes) : Fs Bytes := do
  requireWritable
  let valid ← u32At input 0
  match (← Proc.get).socketAt node with
  | some (path, socket) => setattrSocket node valid input path socket
  | none => setattrHost node valid input

/-! ### Creating -/

/-- Records a socket at `path` and answers as if it had been created. -/
def createSocket (path : PathBuf) (mode : UInt32) (context : RequestContext) : Fs Bytes := do
  let (dirfd, entry) ← atPath path
  let taken ← (Io.existsAt dirfd entry).attempt
  if taken.isOk ∨ ((← Proc.get).sockets.lookup path).isSome then Proc.throw .eexist
  else
    let ino := (← Proc.get).nextSocketIno
    let time ← Io.ask .now
    let socket : SocketNode :=
      { mode := sIfsock ||| (mode &&& 0o7777), uid := context.uid, gid := context.gid, ino, time }
    Proc.modify fun s =>
      { s with
        nextSocketIno := satAdd s.nextSocketIno 1
        sockets := s.sockets.insert path socket }
    let node ← Proc.modifyGet fun s => s.socketNodeId path ino
    Proc.modify (rememberLookup · node)
    pure (socketEntryOut node socket)

/-- Gives a new entry its guest-visible owner and mode. -/
def initializeAt (path : PathBuf) (mode : UInt32) (context : RequestContext) : Fs Unit := do
  let (dirfd, name) ← atPath path
  initializeGuestMetadata dirfd name mode context

/-- MKNOD: regular files, pipes and sockets. -/
def mknod (parent : UInt64) (input : Bytes) (context : RequestContext) : Fs Bytes := do
  requireWritable
  let mode ← u32At input 0
  let name ← Proc.lift (nulName input 16)
  let path ← childPath parent name
  let hostMode := hostCreationMode mode false
  if mode &&& sIfmt = sIfsock then createSocket path mode context
  else
    if mode &&& sIfmt = sIfreg then
      let (dirfd, name) ← atPath path
      let _ ← Io.openHostFileAt dirfd name (linuxOWronly ||| linuxOExcl) true hostMode
    else if mode &&& sIfmt = sIfifo then
      let (dirfd, name) ← atPath path
      Io.mkfifoAt dirfd name hostMode
    else
      -- never a host device node from a guest
      Proc.throw .eperm
    initializeAt path mode context
    newEntry path

/-- MKDIR. -/
def mkdir (parent : UInt64) (input : Bytes) (context : RequestContext) : Fs Bytes := do
  requireWritable
  let mode ← u32At input 0
  let name ← Proc.lift (nulName input 8)
  let path ← childPath parent name
  let (dirfd, entry) ← atPath path
  Io.mkdirAt dirfd entry (hostCreationMode mode true)
  initializeAt path mode context
  newEntry path

/-- SYMLINK. -/
def symlink (parent : UInt64) (input : Bytes) (context : RequestContext) : Fs Bytes := do
  requireWritable
  let (name, next) ← Proc.lift (nulNameWithEnd input 0)
  let target ← Proc.lift (nulName input next)
  let path ← childPath parent name
  let (dirfd, entry) ← atPath path
  Io.symlinkAt target dirfd entry
  initializeAt path 0o777 context
  newEntry path

/-- LINK. -/
def link (newParent : UInt64) (input : Bytes) : Fs Bytes := do
  requireWritable
  let oldNode ← u64At input 0
  let name ← Proc.lift (nulName input 8)
  let oldPath ← nodePath oldNode
  let newPath ← childPath newParent name
  let (oldFd, oldName, newFd, newName) ← twoEntriesAt oldPath newPath
  Io.hostLink oldFd oldName newFd newName
  newEntry newPath

/-! ### Removing and renaming -/

/-- UNLINK and RMDIR. -/
def remove (parent : UInt64) (input : Bytes) (directory : Bool) : Fs Bytes := do
  requireWritable
  let name ← Proc.lift (nulName input 0)
  let path ← childPath parent name
  if !directory && ((← Proc.get).sockets.lookup path).isSome then
    Proc.modify (removeSocket · path)
    pure []
  else
    let (dirfd, entry) ← atPath path
    let stat ← Io.statAt dirfd entry
    Io.unlinkAt dirfd entry directory
    Proc.modify fun s => (s.invalidateDirsByType path stat.isDir).forgetNodePath path stat
    pure []

/-- What a rename that the host has made does to the tables. -/
def renamed (s : VirtioFs) (flags : UInt32) (oldPath newPath : PathBuf) (oldStat : Stat)
    (replaced : Option Stat) : VirtioFs :=
  let movesDirectories := oldStat.isDir || (replaced.map Stat.isDir).getD false
  let s := s.invalidateDirsByType oldPath movesDirectories
  let s := s.invalidateDirsByType newPath movesDirectories
  if has flags renameExchange then s.exchangeNodePaths oldPath newPath
  else
    match replaced with
    | some stat =>
      if stat.key = oldStat.key then s
      else (s.forgetNodePath newPath stat).rewriteRenamedPaths oldPath newPath oldStat
    | none => s.rewriteRenamedPaths oldPath newPath oldStat

/-- RENAME and RENAME2. -/
def rename (oldParent : UInt64) (input : Bytes) (version2 : Bool) : Fs Bytes := do
  requireWritable
  let newParent ← u64At input 0
  let (flags, namesAt) ← if version2 then do pure (← u32At input 8, 16) else pure (0, 8)
  if has flags (~~~(renameNoreplace ||| renameExchange ||| renameWhiteout)) ||
      has flags renameWhiteout || (has flags renameNoreplace && has flags renameExchange) then
    Proc.throw .eopnotsupp
  else
    let (oldName, next) ← Proc.lift (nulNameWithEnd input namesAt)
    let newName ← Proc.lift (nulName input next)
    let oldPath ← childPath oldParent oldName
    let newPath ← childPath newParent newName
    let (oldFd, oldName, newFd, newName) ← twoEntriesAt oldPath newPath
    let oldStat ← Io.statAt oldFd oldName
    let replaced ← (Io.statAt newFd newName).attempt
    Io.hostRename oldFd oldName newFd newName flags
    Proc.modify (renamed · flags oldPath newPath oldStat replaced.toOption)
    pure []

/-! ### Extended attributes -/

/-- The size, or the value if it fits. -/
def xattrResponse (requested : ℕ) (value : Bytes) : Except Errno Bytes :=
  if requested = 0 then
    if value.length < 2 ^ 32 then .ok (putU32 (UInt32.ofNat value.length) ++ putU32 0)
    else .error .efbig
  else if requested < value.length then .error .erange
  else .ok value

/-- SETXATTR. -/
def setxattr (node : UInt64) (input : Bytes) : Fs Bytes := do
  requireWritable
  let size ← u32At input 0
  let flags ← u32At input 4
  if has flags (~~~(linuxXattrCreate ||| linuxXattrReplace)) ∨
      flags = linuxXattrCreate ||| linuxXattrReplace then Proc.throw .einval
  else
    let (name, valueAt) ← Proc.lift (nulNameWithEnd input 16)
    if Io.isPrivateXattr name then Proc.throw .eperm
    else if input.length < valueAt + size.toNat then Proc.throw .einval
    else
      let fd ← openEntryAt node
      Io.fdSetxattr fd name ((input.drop valueAt).take size.toNat) flags
      pure []

/-- GETXATTR. -/
def getxattr (node : UInt64) (input : Bytes) : Fs Bytes := do
  let size ← u32At input 0
  let name ← Proc.lift (nulName input 8)
  if Io.isPrivateXattr name then Proc.throw .enodata
  else
    let fd ← openEntryAt node
    let value ← Io.fdGetxattr fd name
    Proc.lift (xattrResponse size.toNat value)

/-- LISTXATTR. -/
def listxattr (node : UInt64) (input : Bytes) : Fs Bytes := do
  let size ← u32At input 0
  let fd ← openEntryAt node
  let value ← Io.fdListxattr fd
  Proc.lift (xattrResponse size.toNat (Io.filterPrivateXattrs value))

/-- REMOVEXATTR. -/
def removexattr (node : UInt64) (input : Bytes) : Fs Bytes := do
  requireWritable
  let name ← Proc.lift (nulName input 0)
  if Io.isPrivateXattr name then Proc.throw .eperm
  else
    let fd ← openEntryAt node
    Io.fdRemovexattr fd name
    pure []

end VirtioFs
