/-
READDIR and READDIRPLUS (`VirtioFs::readdir` in `devices::virtio::fs::server`).

A directory is read once and paged through: through a handle OPENDIR made, or, when the
guest has stopped opening directories, with fh 0 through a listing kept for the node.  A
listing the readahead workers prepared is taken in place of a read of the directory while
the directory's change time is the one it was read at; its stats go with it only while they
are fresh.
-/
import HviVmm.FsFiles

open CallPrograms Fuse

namespace VirtioFs

/-- Drops every prepared listing and the prepared stats of every fh-0 listing. -/
def dropPrepared : Fs Unit := do
  Io.ask .raInvalidate
  Proc.modify dropPreparedStats

/-- Whether READDIRPLUS may serve a prepared listing. -/
def readaheadEnabled (s : VirtioFs) : Bool := s.cachePolicy != .none

/-- Whether a stat read at `readAt` is still one this share may reply with. -/
def preparedIsFresh (readAt : ℕ) : Fs Bool := do
  let now : ℕ ← Io.ask .clockWithSleep
  pure (decide (now - readAt < (← Proc.get).cacheSeconds.toNat * 1000000000))

/-- The listing made of a prepared one. -/
def fh0OfPrepared (prepared : PreparedDir) (fresh : Bool) : Fh0Listing where
  entries := { name := dot, ino := 0, dtype := 0 } :: { name := dotdot, ino := 0, dtype := 0 } ::
    prepared.entries.map PreparedEntry.info
  prepared := if fresh then prepared.entries.map fun e => (e.stat, e.guest) else []
  preparedAt := if fresh then some prepared.readAt else none
  born := prepared.born

/-- A prepared listing of `dir`, if there is one and the directory has not changed since. -/
def takePrepared (dir : PathBuf) : Fs (Option Fh0Listing) := do
  match ← Io.ask (.raTake dir) with
  | none => pure none
  | some prepared =>
    let relative ← relativeOfPath dir
    let dirStat ← Io.statOfFd (← onDirs (DirCache.dirFd relative))
    if dirStat.ctime = prepared.ctime then
      let fresh ← preparedIsFresh prepared.readAt
      pure (some (fh0OfPrepared prepared fresh))
    else pure none

/-- The prepared listing a readdir with fh 0 may start with.  A directory this device holds a
socket under is listed the plain way. -/
def preparedFor (dir : PathBuf) (plus : Bool) : Fs (Option Fh0Listing) := do
  let s ← Proc.get
  let hasSocket := s.sockets.keys.any fun path => decide (path.parent = some dir)
  if plus && s.readaheadEnabled && !hasSocket then takePrepared dir else pure none

/-- The listing for a readdir with fh 0 that starts a directory. -/
def fh0ListingFor (dir : PathBuf) (plus : Bool) : Fs Fh0Listing := do
  match ← preparedFor dir plus with
  | some listing => pure listing
  | none => do pure { entries := ← dirEntries dir }

/-- A page of a listing: the entries from `offset` on with their positions, at most `n`. -/
def pageOf (entries : List DirEntryInfo) (offset n : ℕ) : List (ℕ × DirEntryInfo) :=
  ((entries.zipIdx.map fun e => (e.2, e.1)).drop offset).take n

/-- What a page needs besides its entries. -/
structure ReaddirPage where
  node : UInt64
  fh : UInt64
  dir : PathBuf
  parentPath : PathBuf
  parentStat : Option Stat
  parentNode : UInt64
  listing : Option Fd
  limit : ℕ
  plus : Bool

namespace ReaddirPage

def minRecordHead (plus : Bool) : ℕ := (if plus then 128 else 0) + 24

/-- The path a record is about. -/
def pathOf (page : ReaddirPage) (idx : ℕ) (entry : DirEntryInfo) : PathBuf :=
  if idx = 0 then page.dir
  else if idx = 1 then page.parentPath
  else page.dir.join entry.name

/-- The metadata of one entry: `.` is the directory the listing is of, `..` the parent, and
everything else a name inside it. -/
def statListed (page : ReaddirPage) (idx : ℕ) (entry : DirEntryInfo) : Fs Stat := do
  if idx = 0 then Io.statOfFd (← Proc.orThrow page.listing .einval)
  else if idx = 1 then Proc.orThrow page.parentStat .einval
  else
    let name ← Proc.lift (cstring entry.name)
    Io.statAt (← Proc.orThrow page.listing .einval) name

/-- The fields after the attributes of a record. -/
def recordTail (ino : UInt64) (idx : ℕ) (entry : DirEntryInfo) (dtype : UInt32) : Bytes :=
  putU64 ino ++ putU64 (UInt64.ofNat (idx + 1)) ++ putU32 (UInt32.ofNat entry.name.length) ++
    putU32 dtype ++ entry.name

/-- The stat and stored attribute a worker prepared for a record. -/
def preparedFor (page : ReaddirPage) (s : VirtioFs) (idx : ℕ) : Option (Stat × Option GuestAttr) :=
  if page.fh = 0 ∧ 1 < idx then do (← s.fh0Listings.lookup page.node).prepared[idx - 2]?
  else none

/-- The node a READDIRPLUS record is of. -/
def recordNode (page : ReaddirPage) (idx : ℕ) (entry : DirEntryInfo) (stat : Stat) : Fs UInt64 :=
  if idx = 0 then pure page.node
  else if idx = 1 then pure page.parentNode
  else nodeFor (page.pathOf idx entry) stat

/-- Caches the stored attribute a worker read.  A value this device wrote since is already
cached on the node and stays. -/
def adoptGuest (node : UInt64) : Option (Stat × Option GuestAttr) → Fs Unit
  | some (_, guest) =>
    Proc.modify fun s =>
      { s with
        nodes := s.nodes.update node fun n =>
          if n.guestAttr.isNone then { n with guestAttr := some guest } else n }
  | none => pure ()

/-- A READDIRPLUS record of a host entry described by `stat`. -/
def plusRecordOf (page : ReaddirPage) (idx : ℕ) (entry : DirEntryInfo) (stat : Stat)
    (prepared : Option (Stat × Option GuestAttr)) : Fs Bytes := do
  let entryNode ← page.recordNode idx entry stat
  adoptGuest entryNode prepared
  -- the guest takes no reference for `.` and `..`
  if 1 < idx then Proc.modify (rememberLookup · entryNode)
  pure ((← entryOut entryNode stat) ++ recordTail entryNode idx entry (direntType stat))

/-- A READDIRPLUS record; `none` for an entry that can no longer be stat'd. -/
def plusRecord (page : ReaddirPage) (idx : ℕ) (entry : DirEntryInfo) : Fs (Option Bytes) := do
  let path := page.pathOf idx entry
  match (← Proc.get).sockets.lookup path with
  | some socket =>
    let entryNode ← Proc.modifyGet fun s => s.socketNodeId path socket.ino
    Proc.modify (rememberLookup · entryNode)
    pure (some (socketEntryOut entryNode socket ++ recordTail entryNode idx entry dtSock))
  | none =>
    match page.preparedFor (← Proc.get) idx with
    | some (stat, guest) => some <$> page.plusRecordOf idx entry stat (some (stat, guest))
    | none =>
      match ← (page.statListed idx entry).attempt with
      | .ok stat => some <$> page.plusRecordOf idx entry stat none
      | .error _ => pure none

/-- The inode number and type of a READDIR record, free from the listing unless it has none. -/
def inoAndType (page : ReaddirPage) (idx : ℕ) (entry : DirEntryInfo) :
    Fs (Option (UInt64 × UInt32)) := do
  if entry.dtype ≠ 0 ∧ 1 < idx then pure (some (entry.ino, entry.dtype))
  else
    match (← Proc.get).sockets.lookup (page.pathOf idx entry) with
    | some socket => pure (some (socket.ino, dtSock))
    | none =>
      match ← (page.statListed idx entry).attempt with
      | .ok stat => pure (some (stat.ino, direntType stat))
      | .error _ => pure none

/-- A record without attributes. -/
def plainRecord (page : ReaddirPage) (idx : ℕ) (entry : DirEntryInfo) : Fs (Option Bytes) := do
  match ← page.inoAndType idx entry with
  | none => pure none
  | some (ino, dtype) =>
    let entryNode := if idx = 0 then page.node else if idx = 1 then page.parentNode else ino
    pure (some (recordTail entryNode idx entry dtype))

/-- A record of the page. -/
def record (page : ReaddirPage) (idx : ℕ) (entry : DirEntryInfo) : Fs (Option Bytes) :=
  if page.plus then page.plusRecord idx entry else page.plainRecord idx entry

/-- The records of a page, up to the first that does not fit; returns whether one did not. -/
def records (page : ReaddirPage) : List (ℕ × DirEntryInfo) → Bytes → Fs (Bytes × Bool)
  | [], out => pure (out, false)
  | (idx, entry) :: rest, out => do
    let recordLen := align8 (minRecordHead page.plus + entry.name.length)
    if page.limit < out.length + recordLen then pure (out, true)
    else
      match ← page.record idx entry with
      | some bytes => page.records rest (padTo (out ++ bytes) (align8 (out ++ bytes).length))
      | none => page.records rest out

end ReaddirPage

/-- Reads the directory and keeps its listing for `node`. -/
def startListing (node : UInt64) (dir : PathBuf) (plus : Bool) : Fs Unit := do
  let listing ← fh0ListingFor dir plus
  Proc.modify fun s =>
    { s with
      fh0Listings := s.fh0Listings.insert node listing
      fh0Finished := s.fh0Finished.filter (· != node) }

/-- Drops the prepared stats of a listing that have become too old. -/
def agePrepared (node : UInt64) : Fs Unit := do
  match ((← Proc.get).fh0Listings.lookup node).bind Fh0Listing.preparedAt with
  | some readAt =>
    if !(← preparedIsFresh readAt) then
      Proc.modify fun s =>
        { s with
          fh0Listings := s.fh0Listings.update node fun l =>
            { l with prepared := [], preparedAt := none } }
  | none => pure ()

/-- The page of the listing kept for `node`, which is read if the page starts the directory
or the listing is gone. -/
def fh0Page (node : UInt64) (dir : PathBuf) (plus : Bool) (offset n : ℕ) :
    Fs (List (ℕ × DirEntryInfo) × Option ℕ) := do
  let reuse := offset ≠ 0 ∧ ((← Proc.get).fh0Listings.lookup node).isSome
  if ¬ reuse then startListing node dir plus
  Proc.modify fun s =>
    let s := makeRoomForFh0Listing { s with fh0Order := s.fh0Order.erase node }
    { s with fh0Order := s.fh0Order ++ [node] }
  let len := ((← Proc.get).fh0Listings.lookup node).map fun l => l.entries.length
  agePrepared node
  let entries := (((← Proc.get).fh0Listings.lookup node).map Fh0Listing.entries).getD []
  pure (pageOf entries offset n, len)

/-- The page of a directory handle's snapshot. -/
def handlePage (fh : UInt64) (offset n : ℕ) : Fs (List (ℕ × DirEntryInfo) × Option ℕ) := do
  let handle ← Proc.orThrow ((← Proc.get).dirHandles.lookup fh) .ebadf
  pure (pageOf handle.entries offset n, none)

/-- The descriptor the entries of a page are stat'd through. -/
def listingFd (dir : PathBuf) (fh : UInt64) : Fs Fd := do
  if fh = 0 then
    let relative ← relativeOfPath dir
    onDirs (DirCache.dirFdOwned relative)
  else
    let handle ← Proc.orThrow ((← Proc.get).dirHandles.lookup fh) .ebadf
    Io.dupCloexec handle.file

/-- Asks the workers for a subdirectory of `dir`. -/
def requestSubdir (dir : PathBuf) (parent : Fd) (e : ℕ × DirEntryInfo) : Fs Unit := do
  if e.1 ≤ 1 ∨ e.2.dtype ≠ dtDir then pure ()
  else
    match cstring e.2.name with
    | .ok name => Io.ask (.raRequest (dir.join e.2.name) parent name)
    | .error _ => pure ()

/-- Asks the workers for the subdirectories a page names, the first of them last. -/
def requestSubdirs (dir : PathBuf) (listing : Option Fd) (batch : List (ℕ × DirEntryInfo)) :
    Fs Unit := do
  match listing with
  | none => pure ()
  | some fd =>
    match ← (Io.dupCloexec fd).attempt with
    | .ok parent => Proc.forEach (requestSubdir dir parent) batch.reverse
    | .error _ => pure ()

/-- Leaves the directory's descriptor cached for what the guest asks next. -/
def warmDir (dir : PathBuf) : Fs Unit := do
  match dir.below (← Proc.get).root with
  | some relative => do
    let _ ← (onDirs (DirCache.dirFd relative)).attempt
  | none => pure ()

/-- The stat of the parent, for a page that starts at `.` or `..`. -/
def parentStatFor (parentPath : PathBuf) (offset : ℕ) : Fs (Option Stat) :=
  if offset ≤ 1 then some <$> statInExport parentPath else pure none

/-- The node, or the inode number, of the record for `..`. -/
def parentNodeFor (parentPath : PathBuf) (plus : Bool) : Option Stat → Fs UInt64
  | some stat => if plus then nodeFor parentPath stat else pure stat.ino
  | none => pure 0

/-- The page, of the listing with fh 0 or of a handle's. -/
def pageFor (node fh : UInt64) (dir : PathBuf) (plus : Bool) (offset n : ℕ) :
    Fs (List (ℕ × DirEntryInfo) × Option ℕ) :=
  if fh = 0 then fh0Page node dir plus offset n else handlePage fh offset n

/-- The descriptor a page needs for its stats, if it needs one. -/
def listingFdFor (dir : PathBuf) (fh : UInt64) (plus : Bool) (batch : List (ℕ × DirEntryInfo)) :
    Fs (Option Fd) :=
  if plus || batch.any fun e => decide (e.1 ≤ 1) || e.2.dtype == dtUnknown then
    some <$> listingFd dir fh
  else pure none

/-- Notes a listing with fh 0 that has been read to its end. -/
def noteFinished (node : UInt64) (full : Bool) (batchEnd : ℕ) : Option ℕ → Fs Unit
  | some len =>
    if !full && decide (len ≤ batchEnd) then
      Proc.modify fun s => { s with fh0Finished := node :: s.fh0Finished.filter (· != node) }
    else pure ()
  | none => pure ()

/-- READDIR and READDIRPLUS. -/
def readdir (node : UInt64) (input : Bytes) (capacity : ℕ) (plus : Bool) : Fs Bytes := do
  let fh ← u64At input 0
  let offset := (← u64At input 8).toNat
  let requested ← u32At input 16
  let limit := min requested.toNat capacity
  let dir ← nodePath node
  if fh ≠ 0 ∧ ((← Proc.get).dirHandles.lookup fh).isNone then Proc.throw .ebadf
  else
    let root := (← Proc.get).root
    warmDir dir
    let parentPath := if dir = root then root else dir.parent.getD root
    let parentStat ← parentStatFor parentPath offset
    let parentNode ← parentNodeFor parentPath plus parentStat
    let n := limit / align8 (ReaddirPage.minRecordHead plus + 1) + 1
    let (batch, fh0Len) ← pageFor node fh dir plus offset n
    let listing ← listingFdFor dir fh plus batch
    let s ← Proc.get
    if plus && (batch.any fun e => decide (1 < e.1) && e.2.dtype == dtDir) &&
      s.readaheadEnabled then
      requestSubdirs dir listing batch
    let page : ReaddirPage :=
      { node, fh, dir, parentPath, parentStat, parentNode, listing, limit, plus }
    let (out, full) ← page.records batch []
    let batchEnd := (batch.getLast?.map fun e => e.1 + 1).getD offset
    noteFinished node full batchEnd fh0Len
    pure out

end VirtioFs
