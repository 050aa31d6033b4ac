/-
The state of a virtio-fs device (`VirtioFs` in `devices::virtio::fs::server`) and what
the server does with its tables without asking the host.

The tables are keyed as in the source: nodes by FUSE node id, the inode index by the
host's device and inode numbers, handles by handle id, sockets by path, parked
descriptors and fh-0 listings by node.  Counters that only feed reports (operation
counts and times, zero-copy and parking hits, handle peaks, host syncs) are left out.
-/
import HviVmm.FsWalk
import HviVmm.Chains
import HviVmm.Mmio
import Mathlib.Data.List.Sort

open CallPrograms Fuse

/-! ### Arithmetic that stops at the ends -/

/-- `saturating_add` -/
def satAdd (a b : UInt64) : UInt64 :=
  if a.toNat + b.toNat < 2 ^ 64 then a + b else 0xffffffffffffffff

def satSub (a b : UInt64) : UInt64 := if b ≤ a then a - b else 0

/-! ### Records -/

/-- How long the guest may keep what it was told. -/
inductive CachePolicy where
  | auto
  | always
  | none
  deriving DecidableEq, Repr

/-- The guest identity the host user's files carry. -/
structure GuestIds where
  uid : UInt32 := 0
  gid : UInt32 := 0
  deriving DecidableEq, Repr

/-- What the server asks about its own process. -/
structure HostProcess where
  euid : UInt32
  egid : UInt32
  pid : ℕ

/-- Who makes a request. -/
structure RequestContext where
  uid : UInt32
  gid : UInt32

/-- What an open was decided on, carried from the open to the park. -/
structure HandleAttrs where
  key : UInt64 × UInt64
  mode : UInt32
  uid : UInt32
  gid : UInt32
  ctime : ℤ × ℤ
  deriving DecidableEq, Repr

def HandleAttrs.of (stat : Stat) : HandleAttrs :=
  { key := stat.key, mode := stat.mode, uid := stat.uid, gid := stat.gid, ctime := stat.ctime }

/-- An open file of the guest. -/
structure FileHandle where
  file : Fd
  writable : Bool
  openFlags : UInt32
  attrs : HandleAttrs
  path : PathBuf
  /-- The host file behind a tmpfile the guest never linked. -/
  temporaryPath : Option PathBuf
  node : UInt64
  /-- Whether a POSIX lock request was made through this handle. -/
  locked : Bool

/-- A host descriptor kept after the guest closed the file. -/
structure ParkedFd where
  file : Fd
  flags : UInt32
  attrs : HandleAttrs
  /-- The stamp of this entry's live appearance in `parkedOrder`. -/
  tick : ℕ

/-- An open directory of the guest. -/
structure DirHandle where
  file : Fd
  entries : List DirEntryInfo

/-- The listing a readdir with fh 0 pages through, with what a readahead worker
prepared for its entries.  `born` is that of the prepared listing; no code reads it. -/
structure Fh0Listing where
  entries : List DirEntryInfo
  prepared : List (Stat × Option GuestAttr) := []
  preparedAt : Option ℕ := none
  born : ℕ := 0

/-- A guest-created Unix socket, held in the device rather than on the host. -/
structure SocketNode where
  mode : UInt32
  uid : UInt32
  gid : UInt32
  ino : UInt64
  time : UInt64 × UInt32
  deriving DecidableEq, Repr

/-- An inode that the guest knows. -/
structure Node where
  key : UInt64 × UInt64
  paths : List PathBuf
  lookups : UInt64 := 0
  openHandles : UInt64 := 0
  /-- The cached private attribute; `some none` means that there is none. -/
  guestAttr : Option (Option GuestAttr) := none

/-- A SETLKW `lock` could not answer because another holder has the lock. -/
structure PendingLock where
  unique : UInt64
  fh : UInt64
  call : LockCall
  deriving DecidableEq, Repr

/-- A SETLKW parked on the device, still owning the chain it arrived in. -/
structure LockWaiter where
  queueIdx : Fin 2
  head : UInt16
  /-- How many ring entries the chain takes, which is what the cap counts. -/
  descriptors : ℕ
  /-- The chain's device-writable descriptors, where the reply goes. -/
  output : List Seg
  unique : UInt64
  fh : UInt64
  call : LockCall
  deriving DecidableEq, Repr

/-- How many entries of a queue of `size` the waiters may hold between them. -/
def LockWaiter.cap (size : UInt16) : ℕ := (size / 4).toNat

/-- A virtio-fs device exporting one host directory. -/
structure VirtioFs where
  root : PathBuf
  writable : Bool
  cachePolicy : CachePolicy
  ids : GuestIds := {}
  process : HostProcess
  transport : Transport 2 := {}
  /-- Bit `i` is set for a queue `i` notified since the last drain. -/
  notified : UInt32 := 0
  nodes : HashMap UInt64 Node
  inodeIds : HashMap (UInt64 × UInt64) UInt64
  nextNode : UInt64 := 2
  sockets : HashMap PathBuf SocketNode := ∅
  nextSocketIno : UInt64 := 1
  handles : HashMap UInt64 FileHandle := ∅
  dirHandles : HashMap UInt64 DirHandle := ∅
  fh0Listings : HashMap UInt64 Fh0Listing := ∅
  /-- The nodes in `fh0Listings`, least recently read first. -/
  fh0Order : List UInt64 := []
  /-- The nodes in `fh0Listings` whose listing a page has read to the end. -/
  fh0Finished : List UInt64 := []
  nextHandle : UInt64 := 1
  handleLimit : ℕ
  parked : HashMap UInt64 ParkedFd := ∅
  /-- Park order, oldest first, each with the stamp it was pushed at. -/
  parkedOrder : List (UInt64 × ℕ) := []
  parkedTicks : ℕ := 0
  parkedLimit : ℕ
  nextTmpfile : UInt64 := 1
  dirs : DirCache
  /-- Whether this export has accepted a mutation since the last SYNCFS. -/
  dirty : Bool := false
  /-- SETLKW requests waiting for a lock another holder has, oldest first. -/
  lockWaiters : List LockWaiter := []
  /-- The SETLKW `lock` has just declined to answer. -/
  lockToPark : Option PendingLock := none

/-- A computation of the server. -/
abbrev Fs := Io VirtioFs

namespace VirtioFs

/-- The device as it starts: the root node, and a descriptor for the export root. -/
def new (root : PathBuf) (rootStat : Stat) (rootFd : ℕ) (writable : Bool)
    (cachePolicy : CachePolicy) (ids : GuestIds) (process : HostProcess)
    (handleLimit dirLimit : ℕ) : VirtioFs where
  root
  writable
  cachePolicy
  ids
  process
  nodes := AList.singleton rootId
    { key := rootStat.key, paths := [root], lookups := 0xffffffffffffffff }
  inodeIds := AList.singleton rootStat.key rootId
  handleLimit
  parkedLimit := handleLimit / 4
  dirs := DirCache.new ⟨rootFd, .root⟩ dirLimit (cachePolicy != .none)

/-! ### Handles -/

def openHandleCount (s : VirtioFs) : ℕ := s.handles.len + s.dirHandles.len

/-- How many host descriptors this device is holding, the guest's and its own. -/
def descriptorsHeld (s : VirtioFs) : ℕ := s.openHandleCount + s.parked.len + s.dirs.held

/-- `saturating_add(1).max(1)`. -/
def bump (n : UInt64) : UInt64 := max (satAdd n 1) 1

/-- No name of the node is left. -/
def isOrphan (s : VirtioFs) (node : UInt64) : Bool :=
  match s.nodes.lookup node with
  | some remembered => remembered.paths.isEmpty
  | none => false

/-- Some open handle of `node`, a writable one if there is one. -/
def handleOfNode (s : VirtioFs) (node : UInt64) : Option (UInt64 × FileHandle) :=
  let ofNode := (s.handles.entries.map fun e => (e.1, e.2)).filter fun e => e.2.node == node
  (ofNode.find? fun e => e.2.writable) <|> ofNode.head?

def holdNode (s : VirtioFs) (node : UInt64) : VirtioFs :=
  { s with nodes := s.nodes.update node fun n => { n with openHandles := satAdd n.openHandles 1 } }

/-- Removes a node and its entry in the inode index. -/
def removeNode (s : VirtioFs) (node : UInt64) (key : UInt64 × UInt64) : VirtioFs :=
  { s with
    nodes := s.nodes.erase node
    inodeIds := if s.inodeIds.lookup key = some node then s.inodeIds.erase key else s.inodeIds }

/-- Records that a handle naming `node` has gone, and drops the node if that was the
last thing referring to it. -/
def releaseNode (s : VirtioFs) (node : UInt64) : VirtioFs :=
  match s.nodes.lookup node with
  | none => s
  | some remembered =>
    let remembered := { remembered with openHandles := satSub remembered.openHandles 1 }
    let s := { s with nodes := s.nodes.insert node remembered }
    if remembered.openHandles ≠ 0 ∨ remembered.lookups ≠ 0 ∨ node = rootId then s
    else s.removeNode node remembered.key

/-- A handle under the next number. -/
def insertHandle (s : VirtioFs) (handle : FileHandle) : VirtioFs × UInt64 :=
  let fh := s.nextHandle
  let s := { s with nextHandle := bump fh, handles := s.handles.insert fh handle }
  (s.holdNode handle.node, fh)

/-! ### Parked descriptors -/

/-- The open flags that decide what reads and writes through a descriptor do. -/
def parkedFlagKey (flags : UInt32) : UInt32 := flags &&& (linuxOAccmode ||| linuxOAppend)

/-- Whether an open may be served from a parked descriptor at all. -/
def mayReuseDescriptor (s : VirtioFs) (flags openFlags : UInt32) : Bool :=
  s.cachePolicy != .none && !has flags linuxOTrunc && !has openFlags fuseOpenKillSuidgid

def dropParked (s : VirtioFs) (node : UInt64) : VirtioFs :=
  { s with parked := s.parked.erase node }

def parkedStamp (s : VirtioFs) (node : UInt64) : Option ℕ :=
  (s.parked.lookup node).map ParkedFd.tick

/-- Pops the queue up to its first live appearance and closes that descriptor. -/
def evictParkedFrom (s : VirtioFs) : List (UInt64 × ℕ) → VirtioFs × Bool
  | [] => ({ s with parkedOrder := [] }, false)
  | (node, tick) :: rest =>
    if s.parkedStamp node = some tick then
      ({ s with parked := s.parked.erase node, parkedOrder := rest }, true)
    else s.evictParkedFrom rest

/-- Drops the oldest parked descriptor.  Returns whether one went. -/
def evictOneParked (s : VirtioFs) : VirtioFs × Bool := s.evictParkedFrom s.parkedOrder

def compactParkedOrder (s : VirtioFs) : VirtioFs :=
  if s.parkedOrder.length ≤ 4 * max s.parked.len 1 then s
  else { s with parkedOrder := s.parkedOrder.filter fun e => s.parkedStamp e.1 = some e.2 }

/-- Evicts parked descriptors until there is room for one more; `none` when none can
go.  At most `n` go. -/
def makeParkedRoom : ℕ → VirtioFs → VirtioFs × Bool
  | 0, s => (s, true)
  | n + 1, s =>
    if s.parkedLimit ≤ s.parked.len then
      match s.evictOneParked with
      | (s, true) => makeParkedRoom n s
      | (s, false) => (s, false)
    else (s, true)

/-- Keeps a descriptor the guest has finished with, for its next open. -/
def parkDescriptor (s : VirtioFs) (node : UInt64) (flags : UInt32) (attrs : HandleAttrs)
    (file : Fd) : VirtioFs :=
  if (s.nodes.lookup node).isNone ∨ s.isOrphan node then s
  else
    let s := s.dropParked node
    if s.parkedLimit = 0 then s
    else
      match makeParkedRoom s.parked.len s with
      | (s, false) => s
      | (s, true) =>
        let tick := s.parkedTicks + 1
        let s := { s with
          parkedTicks := tick
          parked := s.parked.insert node { file, flags := parkedFlagKey flags, attrs, tick }
          parkedOrder := s.parkedOrder ++ [(node, tick)] }
        s.compactParkedOrder

def drainParked (s : VirtioFs) : VirtioFs := { s with parked := ∅, parkedOrder := [] }

/-! ### Fh-0 listings -/

def fh0ListingsMax : ℕ := 64

/-- Drops the fh-0 listing of a directory the guest can no longer read. -/
def dropFh0Listing (s : VirtioFs) (node : UInt64) : VirtioFs :=
  if (s.fh0Listings.lookup node).isSome then
    { s with
      fh0Listings := s.fh0Listings.erase node
      fh0Order := s.fh0Order.erase node
      fh0Finished := s.fh0Finished.filter (· != node) }
  else s

/-- Evicts one fh-0 listing: the least recently read one that has been read to its
end, or the least recently read one. -/
def evictFh0Listing (s : VirtioFs) : VirtioFs :=
  let pos := (s.fh0Order.findIdx? fun node => s.fh0Finished.contains node).getD 0
  match s.fh0Order[pos]? with
  | none => s
  | some node =>
    { s with
      fh0Order := s.fh0Order.eraseIdx pos
      fh0Listings := s.fh0Listings.erase node
      fh0Finished := s.fh0Finished.filter (· != node) }

/-- Evicts fh-0 listings until one more fits; at most `n` go. -/
def makeFh0Room : ℕ → VirtioFs → VirtioFs
  | 0, s => s
  | n + 1, s =>
    if fh0ListingsMax ≤ s.fh0Order.length then makeFh0Room n s.evictFh0Listing else s

def makeRoomForFh0Listing (s : VirtioFs) : VirtioFs := makeFh0Room s.fh0Order.length s

/-- `drop_prepared` on the listings being paged through: they keep their entries. -/
def dropPreparedStats (s : VirtioFs) : VirtioFs :=
  { s with
    fh0Listings := s.fh0Listings.mapVal fun _ listing =>
      { listing with prepared := [], preparedAt := none } }

/-! ### Nodes -/

def rememberLookup (s : VirtioFs) (node : UInt64) : VirtioFs :=
  { s with nodes := s.nodes.update node fun n => { n with lookups := satAdd n.lookups 1 } }

def forgetCount (s : VirtioFs) (node count : UInt64) : VirtioFs :=
  if node = rootId then s
  else
    match s.nodes.lookup node with
    | none => s
    | some remembered =>
      let remembered := { remembered with lookups := satSub remembered.lookups count }
      let s := { s with nodes := s.nodes.insert node remembered }
      if remembered.lookups ≠ 0 then s
      else if remembered.openHandles ≠ 0 then s
      else ((s.removeNode node remembered.key).dropParked node).dropFh0Listing node

/-- FORGET. -/
def forget (s : VirtioFs) (node : UInt64) (input : Bytes) : VirtioFs :=
  s.forgetCount node ((getU64 input 0).getD 0)

/-- The pairs of a BATCH_FORGET from `offset` on, at most `n`, up to the first that
the payload does not hold. -/
def batchForgetFrom (input : Bytes) : ℕ → ℕ → VirtioFs → VirtioFs
  | 0, _, s => s
  | n + 1, offset, s =>
    match getU64 input offset, getU64 input (offset + 8) with
    | some node, some lookups => batchForgetFrom input n (offset + 16) (s.forgetCount node lookups)
    | _, _ => s

/-- BATCH_FORGET. -/
def batchForget (s : VirtioFs) (input : Bytes) : VirtioFs :=
  batchForgetFrom input ((getU32 input 0).getD 0).toNat 8 s

/-- Drops a path that no longer leads to the inode of `stat`. -/
def forgetNodePath (s : VirtioFs) (path : PathBuf) (stat : Stat) : VirtioFs :=
  match s.inodeIds.lookup stat.key with
  | none => s
  | some nodeId =>
    let s := s.dropParked nodeId
    match s.nodes.lookup nodeId with
    | none => s
    | some node =>
      let node := { node with paths := node.paths.filter (· ≠ path) }
      let s := { s with nodes := s.nodes.insert nodeId node }
      if node.paths = [] ∧ nodeId ≠ rootId then
        let s := { s with inodeIds := s.inodeIds.erase stat.key }
        let s := s.dropFh0Listing nodeId
        if node.lookups > 0 ∨ node.openHandles > 0 then s
        else { s with nodes := s.nodes.erase nodeId }
      else s

/-- Moves a path that is at or below `old` to the same place below `new`. -/
def movePath (old new path : PathBuf) : PathBuf :=
  match path.below old with
  | some rest => new ++ rest
  | none => path

/-- A rename moves the names below it. -/
def rewriteNodePaths (s : VirtioFs) (old new : PathBuf) : VirtioFs :=
  { s with nodes := s.nodes.mapVal fun _ n => { n with paths := n.paths.map (movePath old new) } }

/-- Moves the recorded paths of whatever was renamed: all of them for a directory, the
one path of the node the inode index names for anything else. -/
def rewriteRenamedPaths (s : VirtioFs) (old new : PathBuf) (oldStat : Stat) : VirtioFs :=
  if oldStat.isDir then s.rewriteNodePaths old new
  else
    match s.inodeIds.lookup oldStat.key with
    | none => s.rewriteNodePaths old new
    | some id =>
      if (s.nodes.lookup id).isNone then s.rewriteNodePaths old new
      else
        { s with
          nodes := s.nodes.update id fun n =>
            { n with paths := n.paths.map fun path => if path = old then new else path } }

/-- Swaps what is at or below `left` with what is at or below `right`. -/
def swapPath (left right path : PathBuf) : PathBuf :=
  match path.below left with
  | some rest => right ++ rest
  | none => movePath right left path

/-- A rename with RENAME_EXCHANGE. -/
def exchangeNodePaths (s : VirtioFs) (left right : PathBuf) : VirtioFs :=
  { s with nodes := s.nodes.mapVal fun _ n =>
    { n with paths := n.paths.map (swapPath left right) } }

def invalidateGuestAttr (s : VirtioFs) (node : UInt64) : VirtioFs :=
  { s with nodes := s.nodes.update node fun n => { n with guestAttr := none } }

/-- Drops what a mutation of `path` invalidates in the descriptor cache: the subtree of
a directory, the one name of anything else. -/
def invalidateDirsByType (s : VirtioFs) (path : PathBuf) (isDir : Bool) : VirtioFs :=
  match path.below s.root with
  | none => s
  | some relative =>
    { s with dirs := if isDir then s.dirs.forgetSubtree relative else s.dirs.forget relative }

/-! ### Sockets -/

/-- The device number synthetic inodes are numbered under. -/
def socketDev : UInt64 := 0xffffffffffffffff

/-- The node id for a socket, allocated once and then remembered. -/
def socketNodeId (s : VirtioFs) (path : PathBuf) (ino : UInt64) : VirtioFs × UInt64 :=
  match s.inodeIds.lookup (socketDev, ino) with
  | some node => (s, node)
  | none =>
    let node := s.nextNode
    ({ s with
        nextNode := satAdd node 1
        inodeIds := s.inodeIds.insert (socketDev, ino) node
        nodes := s.nodes.insert node { key := (socketDev, ino), paths := [path] } }, node)

/-- The socket at `node`, if that node is one. -/
def socketAt (s : VirtioFs) (node : UInt64) : Option (PathBuf × SocketNode) := do
  let remembered ← s.nodes.lookup node
  if remembered.key.1 = socketDev then
    let path ← remembered.paths.head?
    let socket ← s.sockets.lookup path
    some (path, socket)
  else none

/-- Takes the socket at `path` out of the device, with its nodes. -/
def removeSocket (s : VirtioFs) (path : PathBuf) : VirtioFs :=
  let stale := s.nodes.entries.filter fun e => e.2.key.1 == socketDev && e.2.paths.contains path
  { s with
    sockets := s.sockets.erase path
    nodes := stale.foldl (fun nodes e => nodes.erase e.1) s.nodes
    inodeIds := stale.foldl (fun ids e => ids.erase e.2.key) s.inodeIds }

/-! ### Replies -/

def writableCacheSecs : UInt64 := 5
def readOnlyCacheSecs : UInt64 := 60
def negativeCacheSecs : UInt64 := writableCacheSecs

/-- Seconds the attributes and entries of a reply stay valid in the guest. -/
def cacheSeconds (s : VirtioFs) : UInt64 :=
  if s.cachePolicy = .none then 0
  else if !s.writable then readOnlyCacheSecs
  else writableCacheSecs

def negativeCacheSeconds (s : VirtioFs) : UInt64 := min s.cacheSeconds negativeCacheSecs

def hostUidToGuest (s : VirtioFs) (uid : UInt32) : UInt32 :=
  if uid = s.process.euid then s.ids.uid else uid

def hostGidToGuest (s : VirtioFs) (gid : UInt32) : UInt32 :=
  if gid = s.process.egid then s.ids.gid else gid

/-- The guest's view of a file, from its stored attribute if it has one. -/
def viewOf (s : VirtioFs) (stored : Option GuestAttr) (stat : Stat) : GuestAttr :=
  match stored with
  | some guest => { guest with mode := (stat.mode &&& sIfmt) ||| (guest.mode &&& 0o7777) }
  | none => ⟨stat.mode, s.hostUidToGuest stat.uid, s.hostGidToGuest stat.gid⟩

def putEntryHead (node generation entryValid attrValid : UInt64) : Bytes :=
  putU64 node ++ putU64 generation ++ putU64 entryValid ++ putU64 attrValid ++ putU32 0 ++ putU32 0

/-- `struct fuse_attr`. -/
def putAttr (node : UInt64) (stat : Stat) (guest : GuestAttr) : Bytes :=
  putU64 node ++ putU64 stat.size ++ putU64 stat.blocks ++
    putU64 (nonnegative stat.atime.1) ++ putU64 (nonnegative stat.mtime.1) ++
    putU64 (nonnegative stat.ctime.1) ++ putU32 (nanos stat.atime.2) ++
    putU32 (nanos stat.mtime.2) ++ putU32 (nanos stat.ctime.2) ++ putU32 guest.mode ++
    putU32 stat.nlink ++ putU32 guest.uid ++ putU32 guest.gid ++ putU32 0 ++
    putU32 stat.blksize ++ putU32 0

def fuseAttrLen : ℕ := 6 * 8 + 10 * 4

def entryOutBytes (node : UInt64) (stat : Stat) (cacheSeconds : UInt64) (guest : GuestAttr) :
    Bytes :=
  putEntryHead node 1 cacheSeconds cacheSeconds ++ putAttr node stat guest

def attrOutBytes (node : UInt64) (stat : Stat) (cacheSeconds : UInt64) (guest : GuestAttr) :
    Bytes :=
  putU64 cacheSeconds ++ putU32 0 ++ putU32 0 ++ putAttr node stat guest

/-- The reply for a name that does not exist. -/
def negativeEntryOut (cacheSeconds : UInt64) : Bytes :=
  putEntryHead 0 0 cacheSeconds 0 ++ List.replicate fuseAttrLen 0

def putSocketAttr (node : UInt64) (socket : SocketNode) : Bytes :=
  putU64 node ++ putU64 0 ++ putU64 0 ++ putU64 socket.time.1 ++ putU64 socket.time.1 ++
    putU64 socket.time.1 ++ putU32 socket.time.2 ++ putU32 socket.time.2 ++
    putU32 socket.time.2 ++ putU32 socket.mode ++ putU32 1 ++ putU32 socket.uid ++
    putU32 socket.gid ++ putU32 0 ++ putU32 4096 ++ putU32 0

def socketEntryOut (node : UInt64) (socket : SocketNode) : Bytes :=
  putEntryHead node 1 0 0 ++ putSocketAttr node socket

def socketAttrOut (node : UInt64) (socket : SocketNode) : Bytes :=
  putU64 0 ++ putU32 0 ++ putU32 0 ++ putSocketAttr node socket

def putOpenOut (fh : UInt64) (cache : Bool) : Bytes :=
  putU64 fh ++ putU32 (if cache then 2 else 0) ++ putU32 0

def putStatxTime (time : ℤ × ℤ) : Bytes := putI64 time.1 ++ putU32 (nanos time.2) ++ putU32 0

def statxBasicStats : UInt32 := 0x07ff
def statxBtime : UInt32 := 0x0800

def statxOut (node : UInt64) (stat : Stat) (cacheSeconds : UInt64) (guest : GuestAttr) : Bytes :=
  putU64 cacheSeconds ++ putU32 0 ++ putU32 0 ++ putU64 0 ++ putU64 0 ++
    putU32 (statxBasicStats ||| statxBtime) ++ putU32 stat.blksize ++ putU64 0 ++
    putU32 stat.nlink ++ putU32 guest.uid ++ putU32 guest.gid ++ putU16 guest.mode.toUInt16 ++
    putU16 0 ++ putU64 node ++ putU64 stat.size ++ putU64 stat.blocks ++ putU64 0 ++
    putStatxTime stat.atime ++ putStatxTime (stat.birthtime.1, max stat.birthtime.2 0) ++
    putStatxTime stat.ctime ++ putStatxTime stat.mtime ++ List.replicate 128 0

/-- The readdir type byte for a mode's file-kind bits. -/
def direntType (stat : Stat) : UInt32 :=
  if stat.fileKind = sIfifo then dtFifo
  else if stat.fileKind = sIfchr then dtChr
  else if stat.fileKind = sIfdir then dtDir
  else if stat.fileKind = sIfblk then dtBlk
  else if stat.fileKind = sIfreg then dtReg
  else if stat.fileKind = sIflnk then dtLnk
  else if stat.fileKind = sIfsock then dtSock
  else dtUnknown

/-- Completes a directory's host entries into the listing a handle holds: this device's
sockets under it, sorted, `.` and `..` in front. -/
def assembleEntries (s : VirtioFs) (path : PathBuf) (entries : List DirEntryInfo) :
    List DirEntryInfo :=
  let sockets := s.sockets.entries.filterMap fun e =>
    if e.1.parent = some path then
      e.1.fileName.map fun name => { name, ino := e.2.ino, dtype := dtUnknown }
    else none
  let sorted := (entries ++ sockets).insertionSort fun a b => a.name ≤ b.name
  { name := dot, ino := 0, dtype := 0 } :: { name := dotdot, ino := 0, dtype := 0 } :: sorted

end VirtioFs
