/-
The workers that prepare directory listings (`Readahead`, `ReadaheadState` and
`prepare_dir` of `devices::virtio::fs::server`).

What the threads share is one state under a lock.  Each critical section is one function
here: the serving thread's `request`, `take` and `invalidate`, and the two of a worker,
`pop` before it reads a directory and `publish` after.  What a worker does between them,
`prepare`, is a program of host calls.

The counters and condition variables only say when a thread looks again, and are left out.
`take` may look several times while a worker is at the directory; the looks that find
nothing change nothing, so it is its last look.
-/
import HviVmm.FsListing

open CallPrograms Fuse

/-- Prepared listings that may wait to be taken. -/
def readaheadMaxDirs : ℕ := 256

/-- Directories that may wait to be prepared. -/
def readaheadMaxQueued : ℕ := 64

/-- Subdirectories a worker queues from one directory. -/
def readaheadSubdirsPerDir : ℕ := readaheadMaxQueued / 2

/-- How many levels below a served listing the workers go on their own. -/
def readaheadDepth : ℕ := 3

/-- A directory queued for a worker, which opens `name` under `parent`. -/
structure QueuedDir where
  path : PathBuf
  parent : Fd
  name : Name
  depth : ℕ
  deriving DecidableEq

structure ReadaheadState where
  /-- Directories to prepare, most recent last. -/
  queue : List QueuedDir := []
  /-- Prepared directories in insertion order. -/
  order : List PathBuf := []
  inFlight : List PathBuf := []
  /-- Queued or in-flight directories that were served meanwhile. -/
  skip : List PathBuf := []
  cache : HashMap PathBuf PreparedDir := ∅
  generation : ℕ := 0
  stopped : Bool := false

namespace ReadaheadState

/-- Queues a directory as the next to prepare.  One that is queued already moves to the top
with the smaller depth; a full queue drops its oldest. -/
def push (s : ReadaheadState) (dir : QueuedDir) : ReadaheadState :=
  let same := fun queued : QueuedDir => queued.path == dir.path
  let depth := match s.queue.find? same with
    | some queued => min dir.depth queued.depth
    | none => dir.depth
  let queue := s.queue.eraseP same
  let queue := if readaheadMaxQueued ≤ queue.length then queue.drop 1 else queue
  { s with queue := queue ++ [{ dir with depth }] }

/-- Queues one subdirectory of the directory at `path`, unless it is prepared or about to be. -/
def queueSubdir (path : PathBuf) (dirFd : Fd) (depth : ℕ) (s : ReadaheadState)
    (entry : PreparedEntry) : ReadaheadState :=
  let child := path ++ [entry.info.name]
  if (s.cache.lookup child).isSome ∨ child ∈ s.inFlight then s
  else
    match cstring entry.info.name with
    | .ok name => s.push { path := child, parent := dirFd, name, depth }
    | .error _ => s

/-- Queues the first subdirectories of a listing, the last of them first. -/
def queueSubdirs (s : ReadaheadState) (path : PathBuf) (entries : List PreparedEntry)
    (dirFd : Fd) (depth : ℕ) : ReadaheadState :=
  ((entries.filter fun e => e.stat.isDir).take readaheadSubdirsPerDir).reverse.foldl
    (queueSubdir path dirFd depth) s

/-- Records that a directory was served, if a worker would still reach it. -/
def markServed (s : ReadaheadState) (path : PathBuf) : ReadaheadState :=
  if path ∈ s.inFlight ∨ s.queue.any fun queued => queued.path == path then
    { s with skip := s.skip.insert path }
  else s

/-- Removes the prepared listing of `path`, if any, and marks it served. -/
def takePrepared (s : ReadaheadState) (path : PathBuf) : Option (PreparedDir × ReadaheadState) :=
  match s.cache.lookup path with
  | none => none
  | some prepared =>
    some (prepared, { s with cache := s.cache.erase path, order := s.order.erase path }.markServed
      path)

/-- `take`, from its last look on. -/
def take (s : ReadaheadState) (path : PathBuf) : Option PreparedDir × ReadaheadState :=
  match s.takePrepared path with
  | some (prepared, s) => (some prepared, s)
  | none => (none, s.markServed path)

/-- Asks for the directory `name` under `parent`, known as `path`. -/
def request (s : ReadaheadState) (path : PathBuf) (parent : Fd) (name : Name) : ReadaheadState :=
  if (s.cache.lookup path).isSome ∨ path ∈ s.inFlight then s
  else { s with skip := s.skip.erase path }.push { path, parent, name, depth := 0 }

/-- Drops every prepared listing and every request. -/
def invalidate (s : ReadaheadState) : ReadaheadState :=
  { s with generation := s.generation + 1, queue := [], skip := [], cache := ∅, order := [] }

/-- Nothing is left that a skip could be for. -/
def clearSkip (s : ReadaheadState) : ReadaheadState :=
  if s.queue = [] ∧ s.inFlight = [] then { s with skip := [] } else s

/-- A worker takes the directory queued last.  It drops one that was served, is prepared or
is in flight, and is then left with nothing. -/
def pop (s : ReadaheadState) : Option (Option QueuedDir × ReadaheadState) :=
  match s.queue.getLast? with
  | none => none
  | some dir =>
    let s := { s with queue := s.queue.dropLast }
    if dir.path ∈ s.skip then some (none, { s with skip := s.skip.erase dir.path }.clearSkip)
    else if (s.cache.lookup dir.path).isSome ∨ dir.path ∈ s.inFlight then some (none, s.clearSkip)
    else some (some dir, { s with inFlight := s.inFlight.insert dir.path })

/-- Makes room for one more listing, dropping the oldest. -/
def evict : List PathBuf → HashMap PathBuf PreparedDir → List PathBuf × HashMap PathBuf PreparedDir
  | [], cache => ([], cache)
  | oldest :: order, cache =>
    if readaheadMaxDirs ≤ cache.len then evict order (cache.erase oldest)
    else (oldest :: order, cache)

/-- Keeps a prepared listing. -/
def keep (s : ReadaheadState) (path : PathBuf) (prepared : PreparedDir) : ReadaheadState :=
  let room := evict s.order s.cache
  { s with order := room.1 ++ [path], cache := room.2.insert path prepared }

/-- A worker is done with a directory it began under `generation`.  What it read is dropped if
the directory was served meanwhile or the generation has moved on. -/
def publish (s : ReadaheadState) (dir : QueuedDir) (generation : ℕ)
    (result : Option (Fd × PreparedDir)) : ReadaheadState :=
  let abandoned := decide (dir.path ∈ s.skip)
  let s := { s with
    inFlight := s.inFlight.erase dir.path, skip := s.skip.erase dir.path }.clearSkip
  match result with
  | none => s
  | some (dirFd, prepared) =>
    if abandoned ∨ s.generation ≠ generation then s
    else
      let s := if dir.depth < readaheadDepth then
        s.queueSubdirs dir.path prepared.entries dirFd (dir.depth + 1) else s
      s.keep dir.path prepared

end ReadaheadState

/-! ### Reading a directory -/

namespace Readahead

abbrev Work := Io Unit

/-- One entry; one that cannot be looked at is left out. -/
def prepareEntry (dirFd : Fd) (info : DirEntryInfo) : Work (Option PreparedEntry) := do
  match cstring info.name with
  | .error _ => pure none
  | .ok name =>
    match ← (Io.statAt dirFd name).attempt with
    | .error _ => pure none
    | .ok stat =>
      match ← (Io.openEntryNofollow dirFd name).attempt with
      | .error _ => pure (some { info, stat, guest := none })
      | .ok fd => do
        pure (some { info, stat, guest := ← Io.storedGuestAttr fd })

/-- The entries in turn; `none` once the worker is told to exit. -/
def prepareEntries (dirFd : Fd) : List DirEntryInfo → Work (Option (List PreparedEntry))
  | [] => pure (some [])
  | info :: rest => do
    let stopping : Bool ← Io.ask .stopping
    if stopping then pure none
    else
      let entry ← prepareEntry dirFd info
      match ← prepareEntries dirFd rest with
      | none => pure none
      | some entries => pure (some (entry.toList ++ entries))

/-- `prepare_dir`. -/
def prepareDir (dirFd : Fd) : Work (Option PreparedDir) := do
  let stat ← Io.statOfFd dirFd
  let listing ← Io.readDirAt (← Io.dupCloexec dirFd)
  match ← prepareEntries dirFd listing with
  | none => pure none
  | some entries =>
    let readAt : ℕ ← Io.ask .clockWithSleep
    -- listing order
    let entries := entries.insertionSort fun left right => left.info.name ≤ right.info.name
    pure (some { ctime := stat.ctime, readAt, entries, born := 0 })

/-- What a worker does outside the lock: it opens the directory under its parent and prepares
it.  `none` if either fails. -/
def prepare (parent : Fd) (name : Name) : Work (Option (Fd × PreparedDir)) := do
  match ← (Io.openEntryNofollow parent name).attempt with
  | .error _ => pure none
  | .ok dirFd =>
    match ← (prepareDir dirFd).attempt with
    | .ok (some prepared) => pure (some (dirFd, prepared))
    | _ => pure none

end Readahead
