/-
From nodes to host entries and back (`devices::virtio::fs::server`).

A FUSE request names nodes.  A node remembers the paths that lead to its inode; a path
is turned into the descriptor of its parent directory and a last component, the pair
every `*at` call takes.  In the other direction `nodeFor` finds or makes the node of an
inode the host has just described.
-/
import HviVmm.FsState

open CallPrograms Fuse

namespace VirtioFs

/-- Runs an operation of the descriptor cache. -/
def onDirs {α : Type} (m : Io DirCache α) : Fs α :=
  m.zoom VirtioFs.dirs fun d s => { s with dirs := d }

/-- Admits a mutation, and records that SYNCFS now has something to flush. -/
def requireWritable : Fs Unit := do
  if (← Proc.get).writable then Proc.modify fun s => { s with dirty := true }
  else Proc.throw .erofs

/-! ### Resolution -/

/-- A path below the export root, relative to it. -/
def relativeOfPath (path : PathBuf) : Fs PathBuf := do
  Proc.orThrow (path.below (← Proc.get).root) .einval

/-- The last component of a path, as the host takes it. -/
def lastName (relative : PathBuf) : Fs Name := do
  Proc.lift (cstring (← Proc.orThrow relative.fileName .einval))

/-- Stats a path inside the export without the descriptor cache. -/
def statUncached (path : PathBuf) : Fs Stat := do
  let root := (← Proc.get).dirs.root
  let relative ← relativeOfPath path
  if relative = [] then Io.statOfFd root
  else
    let name ← lastName relative
    let parent := relative.parent.getD []
    if parent = [] then Io.statAt root name
    else Io.statAt (← DirCache.walk root parent) name

/-- The first of the paths that leads to the inode `key`. -/
def firstNaming (key : UInt64 × UInt64) : List PathBuf → Fs (Option PathBuf)
  | [] => pure none
  | path :: paths => do
    match ← (statUncached path).attempt with
    | .ok stat => if stat.key = key then pure (some path) else firstNaming key paths
    | .error _ => firstNaming key paths

/-- A path of the node.  With one alias there is nothing to disambiguate. -/
def nodePath (node : UInt64) : Fs PathBuf := do
  let remembered ← Proc.orThrow ((← Proc.get).nodes.lookup node) .enoent
  match remembered.paths with
  | [only] => pure only
  | paths => do Proc.orThrow (← firstNaming remembered.key paths) .enoent

/-- A node's path relative to the export root. -/
def relativeOf (node : UInt64) : Fs PathBuf := do relativeOfPath (← nodePath node)

/-- The parent's directory descriptor and the final component. -/
def atRelative (relative : PathBuf) : Fs (Fd × Name) := do
  let name ← lastName relative
  let dirfd ← onDirs (DirCache.dirFd (relative.parent.getD []))
  pure (dirfd, name)

/-- The same for an absolute path. -/
def atPath (path : PathBuf) : Fs (Fd × Name) := do atRelative (← relativeOfPath path)

/-- The same for a node. -/
def entryAt (node : UInt64) : Fs (Fd × Name) := do atRelative (← relativeOf node)

/-- Both ends of a two-path operation, resolved together. -/
def twoEntriesAt (old new : PathBuf) : Fs (Fd × Name × Fd × Name) := do
  let oldRel ← relativeOfPath old
  let newRel ← relativeOfPath new
  let oldName ← lastName oldRel
  let newName ← lastName newRel
  let oldFd ← onDirs (DirCache.dirFdOwned (oldRel.parent.getD []))
  let newFd ← onDirs (DirCache.dirFdOwned (newRel.parent.getD []))
  pure (oldFd, oldName, newFd, newName)

/-- Stats an absolute path inside the export by descriptor. -/
def statInExport (path : PathBuf) : Fs Stat := do
  let relative ← relativeOfPath path
  if relative = [] then Io.statOfFd (← Proc.get).dirs.root
  else
    let (dirfd, name) ← atRelative relative
    Io.statAt dirfd name

/-- Opens the entry a node names, for attribute work: a duplicate of a handle for a node
without a name, a duplicate of the root descriptor for the root. -/
def openEntryAt (node : UInt64) : Fs Fd := do
  let s ← Proc.get
  if s.isOrphan node then
    let (_, handle) ← Proc.orThrow (s.handleOfNode node) .enoent
    Io.dupCloexec handle.file
  else if (← relativeOf node) = [] then Io.dupCloexec (← Proc.get).dirs.root
  else
    let (dirfd, name) ← entryAt node
    Io.openEntryNofollow dirfd name

/-! ### Nodes of inodes -/

/-- Most paths one node will remember at once. -/
def maxNodeAliases : ℕ := 16

/-- The position of the first path that no longer leads to the inode `key`. -/
def firstStale (key : UInt64 × UInt64) : List PathBuf → Fs (Option ℕ)
  | [] => pure none
  | path :: paths => do
    match ← (statUncached path).attempt with
    | .ok stat =>
      if stat.key ≠ key then pure (some 0)
      else pure ((← firstStale key paths).map (· + 1))
    | .error _ => pure (some 0)

/-- Gives a known node another path, dropping the one at `stale`. -/
def addAlias (stale : Option ℕ) (path : PathBuf) (n : Node) : Node :=
  if path ∈ n.paths then n
  else
    { n with
      paths := (match stale with | some i => n.paths.eraseIdx i | none => n.paths) ++ [path]
      guestAttr := none }

/-- The node of the inode `stat` describes, found at `path`. -/
def nodeFor (path : PathBuf) (stat : Stat) : Fs UInt64 := do
  let s ← Proc.get
  match s.inodeIds.lookup stat.key with
  | some node =>
    let paths := ((s.nodes.lookup node).map Node.paths).getD []
    let stale ←
      if path ∉ paths ∧ maxNodeAliases ≤ paths.length then
        (fun found => some (found.getD 0)) <$> firstStale stat.key paths
      else pure none
    Proc.modify fun s => { s with nodes := s.nodes.update node (addAlias stale path) }
    pure node
  | none =>
    let node := s.nextNode
    Proc.modify fun s =>
      { s with
        nextNode := satAdd s.nextNode 1
        nodes := s.nodes.insert node { key := stat.key, paths := [path] }
        inodeIds := s.inodeIds.insert stat.key node }
    pure node

/-- The guest's view of a file, from the attribute cached on the node or else from the
file itself. -/
def guestAttr (node : UInt64) (stat : Stat) : Fs GuestAttr := do
  let stored ← match ((← Proc.get).nodes.lookup node).map Node.guestAttr with
    | some (some cached) => pure cached
    | _ => do
      let stored ← match ← (openEntryAt node).attempt with
        | .ok fd => Io.storedGuestAttr fd
        | .error _ => pure none
      Proc.modify fun s =>
        { s with nodes := s.nodes.update node fun n => { n with guestAttr := some stored } }
      pure stored
  pure ((← Proc.get).viewOf stored stat)

/-- The guest's view of an open file, read from the file. -/
def guestAttrOfFd (fd : Fd) (stat : Stat) : Fs GuestAttr := do
  let stored ← Io.storedGuestAttr fd
  pure ((← Proc.get).viewOf stored stat)

/-- The attributes of a node, as a reply. -/
def attrOut (node : UInt64) (stat : Stat) : Fs Bytes := do
  let guest ← guestAttr node stat
  pure (attrOutBytes node stat (← Proc.get).cacheSeconds guest)

/-- The entry of a node, as a reply. -/
def entryOut (node : UInt64) (stat : Stat) : Fs Bytes := do
  let guest ← guestAttr node stat
  pure (entryOutBytes node stat (← Proc.get).cacheSeconds guest)

/-- The path of a name the guest asked for below `parent`. -/
def childPath (parent : UInt64) (name : Name) : Fs PathBuf := do
  Proc.lift (validateMutationName name)
  pure ((← nodePath parent).join name)

/-- The reply for an entry that has just been made at `path`. -/
def newEntry (path : PathBuf) : Fs Bytes := do
  let stat ← statInExport path
  let node ← nodeFor path stat
  Proc.modify (rememberLookup · node)
  entryOut node stat

/-! ### Metadata of new and changed files -/

/-- The host keeps access to its own files whatever mode the guest asks for. -/
def hostCreationMode (mode : UInt32) (directory : Bool) : UInt32 :=
  (mode &&& 0o777) ||| (if directory then 0o700 else 0o600)

def initializeGuestMetadata (dirfd : Fd) (name : Name) (mode : UInt32) (context : RequestContext) :
    Fs Unit := do
  let stat ← Io.statAt dirfd name
  let fd ← Io.openEntryNofollow dirfd name
  if !stat.isSymlink then Io.chmodAt dirfd name (hostCreationMode mode stat.isDir)
  Io.setGuestAttr fd ⟨(stat.mode &&& sIfmt) ||| (mode &&& 0o7777), context.uid, context.gid⟩

/-- Drops the set-id bits of a file. -/
def clearSuidSgid (file : Fd) : Fs Unit := do
  let stat ← Io.statOfFd file
  let guest ← guestAttrOfFd file stat
  if has guest.mode 0o6000 then
    Io.setGuestAttr file { guest with mode := guest.mode &&& ~~~(0o6000 : UInt32) }

end VirtioFs
