/-
Resolving a path by descriptors (`DirCache` in `devices::virtio::fs::server`).

The server never hands the host a path.  `walk` opens one component at a time below
the export's root, reads the symlinks it meets itself and resolves them in the
export's own name space: an absolute target starts again at the root, and `..` stops
there.  What it has resolved so far is a list of names, opened again from the root
before each further component.  `DirCache` keeps the descriptors walks have ended
with.

* `walkFrom` — the walk with a number of symlink expansions left.  It goes by
  recursion on that number and, within one, on the components still to resolve, so
  it ends for every tree.
-/
import HviVmm.FsHost
import HviVmm.HashTables

open CallPrograms Fuse

namespace DirCache

variable {σ : Type}

/-- Opens the components `names` in turn below `current`, or below the root. -/
def openResolvedFrom (root : Fd) : Option Fd → List Name → Io σ (Option Fd)
  | current, [] => pure current
  | current, name :: names => do
    let fd ← Io.openDirNofollowAt (current.getD root) name
    openResolvedFrom root (some fd) names

/-- Opens a chain of already-resolved names from the root; `none` for the empty
chain, which is the root itself. -/
def openResolved (root : Fd) (names : List Name) : Io σ (Option Fd) :=
  openResolvedFrom root none names

/-- Resolves the components `pending` below the resolved ones.  A symlink is
replaced by the components of its target, and `expand` goes on from there. -/
def walkAlong (root : Fd) (expand : List Name → List Name → Io σ Fd) :
    List Name → List Name → Io σ Fd
  | [], resolved => do Proc.orThrow (← openResolved root resolved) .einval
  | name :: pending, resolved =>
    if name = dot then walkAlong root expand pending resolved
    else if name = dotdot then walkAlong root expand pending resolved.dropLast
    else do
      let parent := (← openResolved root resolved).getD root
      match ← (Io.openDirNofollowAt parent name).attempt with
      | .ok _ => walkAlong root expand pending (resolved ++ [name])
      | .error err =>
        if err = .enotdir ∨ err = .eloop then do
          let cName ← Proc.lift (cstring name)
          match ← (Io.readLinkAt parent cName).attempt with
          | .error _ => Proc.throw err
          | .ok target =>
            expand (PathBuf.components target ++ pending)
              (if PathBuf.isAbsolute target then [] else resolved)
        else Proc.throw err

/-- The walk with `left` symlink expansions left. -/
def walkFrom (root : Fd) : ℕ → List Name → List Name → Io σ Fd
  | 0 => walkAlong root fun _ _ => Proc.throw .eloop
  | left + 1 => walkAlong root (walkFrom root left)

/-- Bounds what a pair of symlinks pointing at each other would otherwise be. -/
def maxExpansions : ℕ := 40

/-- Opens each component in turn, resolving symlinks inside the export. -/
def walk (root : Fd) (relative : PathBuf) : Io σ Fd :=
  if dotdot ∈ relative then Proc.throw .einval
  else walkFrom root maxExpansions relative []

end DirCache

/-- Directory descriptors for the export, keyed by the path below its root. -/
structure DirCache where
  /-- The export root, the origin of every walk. -/
  root : Fd
  /-- The descriptor for each cached path, with the stamp of its live appearance in
  `lru`. -/
  openDirs : HashMap PathBuf (Fd × ℕ) := ∅
  caching : Bool
  /-- Where a walk's result lives when it is not cached. -/
  scratch : Option Fd := none
  /-- Least recently used first; a path appears once per use. -/
  lru : List (PathBuf × ℕ) := []
  ticks : ℕ := 0
  limit : ℕ

namespace DirCache

def new (root : Fd) (limit : ℕ) (caching : Bool) : DirCache :=
  { root, caching, limit := max limit 1 }

/-- The stamp of the path's live appearance. -/
def stamp (d : DirCache) (path : PathBuf) : Option ℕ := (d.openDirs.lookup path).map Prod.snd

/-- Drops the appearances entries have been used past, once they outnumber the live
ones. -/
def compactLru (d : DirCache) : DirCache :=
  if d.lru.length ≤ 4 * max d.openDirs.len 1 then d
  else { d with lru := d.lru.filter fun e => d.stamp e.1 = some e.2 }

def touch (d : DirCache) (relative : PathBuf) : DirCache :=
  let tick := d.ticks + 1
  let d := { d with ticks := tick }
  let d := match d.openDirs.lookup relative with
    | some (fd, _) =>
      { d with openDirs := d.openDirs.insert relative (fd, tick), lru := d.lru ++
        [(relative, tick)] }
    | none => d
  d.compactLru

/-- Pops the queue up to its first live appearance and drops that entry. -/
def evictFrom (d : DirCache) : List (PathBuf × ℕ) → DirCache × Bool
  | [] => ({ d with lru := [] }, false)
  | (path, tick) :: rest =>
    if d.stamp path = some tick then
      ({ d with openDirs := d.openDirs.erase path, lru := rest }, true)
    else d.evictFrom rest

/-- Closes the least recently used descriptor.  Returns whether one went. -/
def evictOne (d : DirCache) : DirCache × Bool := d.evictFrom d.lru

/-- Evicts until the cache is below its limit; at most `n` entries go. -/
def makeRoom : ℕ → DirCache → DirCache
  | 0, d => d
  | n + 1, d =>
    if d.limit ≤ d.openDirs.len then
      match d.evictOne with
      | (d, true) => makeRoom n d
      | (d, false) => d
    else d

def admitDir (d : DirCache) (relative : PathBuf) (fd : Fd) : DirCache :=
  let d := makeRoom d.openDirs.len d
  let tick := d.ticks + 1
  { d with
    ticks := tick
    lru := d.lru ++ [(relative, tick)]
    openDirs := d.openDirs.insert relative (fd, tick) }

/-- Drops a descriptor; what it has left in `lru` no longer matches an entry. -/
def forget (d : DirCache) (relative : PathBuf) : DirCache :=
  { d with openDirs := d.openDirs.erase relative }

/-- Drops the descriptor for `relative` and for everything beneath it. -/
def forgetSubtree (d : DirCache) (relative : PathBuf) : DirCache :=
  (d.openDirs.keys.filter fun cached => relative.isPrefixOf cached).foldl forget d

/-- Returns how many host descriptors this cache is holding. -/
def held (d : DirCache) : ℕ := d.openDirs.len

/-- A descriptor for the directory at `relative`.  The last case is the source's
`expect`: an entry just touched or admitted is there. -/
def dirFd (relative : PathBuf) : Io DirCache Fd := do
  let d ← Proc.get
  if relative = [] then pure d.root
  else if !d.caching then
    let fd ← walk d.root relative
    Proc.modify fun d => { d with scratch := some fd }
    pure fd
  else
    if (d.openDirs.lookup relative).isSome then
      Proc.modify fun d => d.touch relative
    else
      let fd ← walk d.root relative
      Proc.modify fun d => d.admitDir relative fd
    let d ← Proc.get
    match d.openDirs.lookup relative with
    | some (fd, _) => pure fd
    | none => Proc.throw .eio

/-- An owned descriptor for `relative`. -/
def dirFdOwned (relative : PathBuf) : Io DirCache Fd := do
  Io.dupCloexec (← dirFd relative)

end DirCache
