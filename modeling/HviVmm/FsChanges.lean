/-
The changes a virtio-fs request makes to the device.

A request works on the tables by a fixed set of steps, and `Change` lists them, each with what
is known of the state it is taken in.  That every handler goes by such steps is part of what its
`*_keeps` lemma says; an invariant of the tables is then a matter of one step.

* `Tweak` — a step that neither issues nor counts nor removes a node or a handle;
* `Effect` — one that makes a handle, or lets go of nodes and handles;
* `Change.good` — every step stays inside the export;
* `Change.spare` — what a kind that makes nothing leaves as it is;
* `rules` — the rules of a kind for the device.
-/
import HviVmm.FsInside

open CallPrograms Fuse Relation

/-- The kind that makes nothing and is like `k` otherwise. -/
def Kind.spare (k : Kind) : Kind := { k with makes := false }

/-- What a node counts, and the inode it is of. -/
def Node.counts (n : Node) : (UInt64 × UInt64) × UInt64 × UInt64 :=
  (n.key, n.lookups, n.openHandles)

/-- A node is changed in place: it counts what it did, its paths stay below the root, and it keeps
a path if it had one. -/
structure Node.Amended (root : PathBuf) (n n' : Node) : Prop where
  counts : n'.counts = n.counts
  paths : (∀ p ∈ n.paths, PathBuf.Under root p) → ∀ p ∈ n'.paths, PathBuf.Under root p
  named : n'.paths = [] → n.paths = []

theorem Node.Amended.of_paths {root : PathBuf} {n n' : Node} (hcounts : n'.counts = n.counts)
    (hpaths : n'.paths = n.paths) : Node.Amended root n n' :=
  ⟨hcounts, by rw [hpaths]; exact id, by rw [hpaths]; exact id⟩

theorem Node.Amended.move {root : PathBuf} {f : PathBuf → PathBuf}
    (hf : ∀ p, PathBuf.Under root p → PathBuf.Under root (f p)) (n : Node) :
    Node.Amended root n { n with paths := n.paths.map f } where
  counts := rfl
  paths h p hp := by
    obtain ⟨q, hq, rfl⟩ := List.mem_map.mp hp
    exact hf q (h q hq)
  named := List.map_eq_nil_iff.mp

namespace VirtioFs

/-! ### Tables that shrink -/

/-- Descriptors go that the device keeps for itself. -/
inductive Sheds (s : VirtioFs) : VirtioFs → Prop
  | mk {dirs : DirCache} {parked : HashMap UInt64 ParkedFd} {parkedOrder : List (UInt64 × ℕ)}
      (hdirs : s.dirs.Good → dirs.Good) (hparked : parked.Sub s.parked) :
      Sheds s { s with dirs, parked, parkedOrder }

theorem Sheds.refl (s : VirtioFs) : Sheds s s := .mk id (.refl _)

theorem Sheds.trans {s s' s'' : VirtioFs} (h : Sheds s s') (h' : Sheds s' s'') : Sheds s s'' := by
  cases h with
  | mk hdirs hparked =>
    cases h' with
    | mk hdirs' hparked' => exact .mk (hdirs' ∘ hdirs) (hparked'.trans hparked)

/-- Nodes lose references and paths or go, and with them sockets, parked descriptors and
listings. -/
inductive Trims (s : VirtioFs) : VirtioFs → Prop
  | mk {nodes : HashMap UInt64 Node} {inodeIds : HashMap (UInt64 × UInt64) UInt64}
      {sockets : HashMap PathBuf SocketNode} {parked : HashMap UInt64 ParkedFd}
      {fh0Listings : HashMap UInt64 Fh0Listing} {fh0Order fh0Finished : List UInt64}
      (hnodes : ∀ id n', nodes.lookup id = some n' →
        ∃ n, s.nodes.lookup id = some n ∧ n'.paths ⊆ n.paths)
      (hsockets : sockets.Sub s.sockets) (hparked : parked.Sub s.parked)
      (hlistings : fh0Listings.Sub s.fh0Listings) :
      Trims s { s with nodes, inodeIds, sockets, parked, fh0Listings, fh0Order, fh0Finished }

section

variable {s s' s'' : VirtioFs}

theorem nodes_kept (s : VirtioFs) (id : UInt64) (n' : Node) (h : s.nodes.lookup id = some n') :
    ∃ n, s.nodes.lookup id = some n ∧ n'.paths ⊆ n.paths := ⟨n', h, List.Subset.refl _⟩

theorem Trims.refl (s : VirtioFs) : Trims s s := .mk s.nodes_kept (.refl _) (.refl _) (.refl _)

theorem Trims.trans (h : Trims s s') (h' : Trims s' s'') : Trims s s'' := by
  cases h with
  | mk hnodes hsockets hparked hlistings =>
    cases h' with
    | mk hnodes' hsockets' hparked' hlistings' =>
      refine .mk (fun id n'' hn'' => ?_) (hsockets'.trans hsockets) (hparked'.trans hparked)
        (hlistings'.trans hlistings)
      obtain ⟨n', hn', hpaths'⟩ := hnodes' id n'' hn''
      obtain ⟨n, hn, hpaths⟩ := hnodes id n' hn'
      exact ⟨n, hn, fun p hp => hpaths (hpaths' hp)⟩

theorem removeNode_trims (s : VirtioFs) (node : UInt64) (key : UInt64 × UInt64) :
    Trims s (s.removeNode node key) := by
  refine .mk (fun id n hn => ?_) (.refl _) (.refl _) (.refl _)
  exact s.nodes_kept id n (s.nodes.erase_sub node id n hn)

theorem insertNode_trims {node : UInt64} {n n' : Node} (hn : s.nodes.lookup node = some n)
    (hpaths : n'.paths ⊆ n.paths) : Trims s { s with nodes := s.nodes.insert node n' } := by
  refine .mk (fun id m hm => ?_) (.refl _) (.refl _) (.refl _)
  rcases HashMap.lookup_insert_iff.mp hm with ⟨rfl, rfl⟩ | ⟨-, hm⟩
  · exact ⟨n, hn, hpaths⟩
  · exact s.nodes_kept id m hm

theorem dropParked_trims (s : VirtioFs) (node : UInt64) : Trims s (s.dropParked node) :=
  .mk s.nodes_kept (.refl _) (s.parked.erase_sub node) (.refl _)

theorem dropFh0Listing_trims (s : VirtioFs) (node : UInt64) : Trims s (s.dropFh0Listing node) := by
  unfold dropFh0Listing
  split
  · exact .mk s.nodes_kept (.refl _) (.refl _) (s.fh0Listings.erase_sub node)
  · exact .refl s

theorem releaseNode_trims (s : VirtioFs) (node : UInt64) : Trims s (s.releaseNode node) := by
  unfold releaseNode
  split
  · exact .refl s
  · next n hn =>
    extract_lets remembered s₁
    have hput : Trims s s₁ := insertNode_trims hn (List.Subset.refl _)
    split
    · exact hput
    · exact hput.trans (removeNode_trims _ _ _)

theorem forgetCount_trims (s : VirtioFs) (node count : UInt64) :
    Trims s (s.forgetCount node count) := by
  unfold forgetCount
  split
  · exact .refl s
  · split
    · exact .refl s
    · next n hn =>
      extract_lets remembered s₁
      have hput : Trims s s₁ := insertNode_trims hn (List.Subset.refl _)
      split
      · exact hput
      · split
        · exact hput
        · refine hput.trans ((removeNode_trims s₁ node remembered.key).trans ?_)
          exact (dropParked_trims _ _).trans (dropFh0Listing_trims _ _)

theorem forgetNodePath_trims (s : VirtioFs) (path : PathBuf) (stat : Stat) :
    Trims s (s.forgetNodePath path stat) := by
  unfold forgetNodePath
  split
  · exact .refl s
  · next nodeId _ =>
    extract_lets s₁
    have hdrop : Trims s s₁ := s.dropParked_trims nodeId
    split
    · exact hdrop
    · next n hn =>
      extract_lets node s₂ s₃ s₄
      have hput : Trims s s₂ := hdrop.trans (insertNode_trims hn List.filter_sublist.subset)
      -- no path is left: the inode is unknown from now on
      have hlisting : Trims s s₄ := by
        refine hput.trans (Trims.trans ?_ (dropFh0Listing_trims s₃ nodeId))
        exact .mk s₂.nodes_kept (.refl _) (.refl _) (.refl _)
      clear_value s₄
      split
      · split
        · exact hlisting
        · refine hlisting.trans (.mk (fun id m hm => ?_) (.refl _) (.refl _) (.refl _))
          exact s₄.nodes_kept id m (s₄.nodes.erase_sub nodeId id m hm)
      · exact hput

theorem removeSocket_trims (s : VirtioFs) (path : PathBuf) : Trims s (s.removeSocket path) := by
  refine .mk (fun id n hn => ?_) (s.sockets.erase_sub path) (.refl _) (.refl _)
  refine s.nodes_kept id n ?_
  -- the stale nodes are erased one by one
  generalize List.filter _ s.nodes.entries = stale at hn
  generalize s.nodes = nodes at hn ⊢
  induction stale generalizing nodes with
  | nil => exact hn
  | cons e stale ih => exact nodes.erase_sub e.1 id n (ih _ hn)

theorem evictParkedFrom_sheds (s : VirtioFs) (order : List (UInt64 × ℕ)) :
    Sheds s (s.evictParkedFrom order).1 := by
  induction order with
  | nil => exact .mk id (.refl _)
  | cons e rest ih =>
    unfold evictParkedFrom
    split
    · exact .mk id (s.parked.erase_sub e.1)
    · exact ih

theorem makeParkedRoom_sheds (n : ℕ) (s : VirtioFs) : Sheds s (makeParkedRoom n s).1 := by
  induction n generalizing s with
  | zero => exact .refl s
  | succ n ih =>
    unfold makeParkedRoom
    split
    · have hevict : Sheds s s.evictOneParked.1 := s.evictParkedFrom_sheds s.parkedOrder
      split
      · next s₁ he => exact Sheds.trans (by simpa [he] using hevict) (ih s₁)
      · next s₁ he => simpa [he] using hevict
    · exact .refl s

theorem makeHandleRoom_sheds (n : ℕ) (s : VirtioFs) : Sheds s (makeHandleRoom n s) := by
  induction n generalizing s with
  | zero => exact .refl s
  | succ n ih =>
    unfold makeHandleRoom
    split
    · have hevict : Sheds s s.evictOneParked.1 := s.evictParkedFrom_sheds s.parkedOrder
      split
      · next s₁ he => exact Sheds.trans (by simpa [he] using hevict) (ih s₁)
      · next s₁ he =>
        rw [he] at hevict
        -- nothing parked is left, and a directory goes
        have hdirs : ∀ {dirs went}, s₁.dirs.evictOne = (dirs, went) → s₁.dirs.Good → dirs.Good :=
          fun hd h => by simpa [hd] using h.evictOne
        split
        · next dirs hd => exact (hevict.trans (.mk (hdirs hd) (.refl _))).trans (ih _)
        · next dirs hd => exact hevict.trans (.mk (hdirs hd) (.refl _))
    · exact .refl s

theorem compactParkedOrder_sheds (s : VirtioFs) : Sheds s s.compactParkedOrder := by
  unfold compactParkedOrder
  split
  · exact .refl s
  · exact .mk id (.refl _)

theorem dropParked_sheds (s : VirtioFs) (node : UInt64) : Sheds s (s.dropParked node) :=
  .mk id (s.parked.erase_sub node)

end

/-! ### The steps -/

/-- A node the tables know of: it is there, or the inode index names it. -/
def Known (s : VirtioFs) (node : UInt64) : Prop :=
  (s.nodes.lookup node).isSome = true ∨ ∃ key, s.inodeIds.lookup key = some node

/-- The files of the handles and of the descriptors kept for the next open satisfy `P`. -/
structure Holds (P : Fd → Prop) (s : VirtioFs) : Prop where
  handles : HashMap.All (fun _ (handle : FileHandle) => P handle.file) s.handles
  parked : HashMap.All (fun _ (p : ParkedFd) => P p.file) s.parked

/-- A handle may be made: there is room in the budget, or it is not asked for. -/
def Roomy (k : Kind) (s : VirtioFs) : Prop :=
  k.ungated = true ∨ s.openHandleCount < s.handleLimit

/-- One step that issues, counts and removes no node and no handle.  The listings it leaves hold
nothing that was begun outside `live`, and it makes the export clean only if that is not
`pinned`. -/
inductive Tweak (root : PathBuf) (live : ℕ → Prop) (pinned : Bool) : VirtioFs → VirtioFs → Prop
  | sheds {s s' : VirtioFs} (h : Sheds s s') : Tweak root live pinned s s'
  | dirty (s : VirtioFs) {dirty : Bool} (h : pinned = true → dirty = true) :
      Tweak root live pinned s { s with dirty }
  | tmpfile (s : VirtioFs) : Tweak root live pinned s { s with nextTmpfile := bump s.nextTmpfile }
  | lockToPark (s : VirtioFs) (pending : PendingLock) :
      Tweak root live pinned s { s with lockToPark := some pending }
  | notePosixLock (s : VirtioFs) (fh : UInt64) (call : LockCall) :
      Tweak root live pinned s (s.notePosixLock fh call)
  | listings (s : VirtioFs) {fh0Listings : HashMap UInt64 Fh0Listing}
      {fh0Order fh0Finished : List UInt64}
      (h : s.fh0Listings.All (fun _ l => l.Ok live) → fh0Listings.All fun _ l => l.Ok live) :
      Tweak root live pinned s { s with fh0Listings, fh0Order, fh0Finished }
  | node (s : VirtioFs) (node : UInt64) {f : Node → Node} (h : ∀ n, Node.Amended root n (f n)) :
      Tweak root live pinned s { s with nodes := s.nodes.update node f }
  | nodes (s : VirtioFs) {f : Node → Node} (h : ∀ n, Node.Amended root n (f n)) :
      Tweak root live pinned s { s with nodes := s.nodes.mapVal fun _ => f }
  | socket (s : VirtioFs) {nextSocketIno : UInt64} {path : PathBuf} (socket : SocketNode)
      (h : PathBuf.Under root path) :
      Tweak root live pinned s { s with nextSocketIno, sockets := s.sockets.insert path socket }

/-- One step that makes a handle, or lets go of nodes and handles. -/
inductive Effect (root : PathBuf) (writable : Bool) (k : Kind) : VirtioFs → VirtioFs → Prop
  | forgetPath (s : VirtioFs) (path : PathBuf) (stat : Stat) :
      Effect root writable k s (s.forgetNodePath path stat)
  | forgetCount (s : VirtioFs) (node count : UInt64) :
      Effect root writable k s (s.forgetCount node count)
  | removeSocket (s : VirtioFs) {path : PathBuf} (h : (s.sockets.lookup path).isSome = true) :
      Effect root writable k s (s.removeSocket path)
  | insertHandle (s : VirtioFs) {handle : FileHandle} (h : s.Known handle.node)
      (hfile : k.files handle.file)
      (htmp : ∀ p ∈ handle.temporaryPath, PathBuf.Under root p ∧ writable = true)
      (hroom : Roomy k s) : Effect root writable k s (s.insertHandle handle).1
  | release (s : VirtioFs) {fh : UInt64} {handle : FileHandle}
      (h : s.handles.lookup fh = some handle) :
      Effect root writable k s
        (({ s with handles := s.handles.erase fh } : VirtioFs).releaseNode handle.node)
  | park (s : VirtioFs) {node : UInt64} {n : Node} {p : ParkedFd} {parkedTicks : ℕ}
      {parkedOrder : List (UInt64 × ℕ)} (hnode : s.nodes.lookup node = some n)
      (hpaths : n.paths ≠ []) (hfile : k.files p.file) :
      Effect root writable k s
        { s with parkedTicks, parked := s.parked.insert node p, parkedOrder }
  | insertDirHandle (s : VirtioFs) {handle : DirHandle}
      (h : handle.file.Inside ∧ ListingOk handle.entries) (hroom : Roomy k s) :
      Effect root writable k s
        { s with
          nextHandle := bump s.nextHandle
          dirHandles := s.dirHandles.insert s.nextHandle handle }
  | releaseDir (s : VirtioFs) (fh : UInt64) :
      Effect root writable k s { s with dirHandles := s.dirHandles.erase fh }

/-- One step of a request. -/
inductive Change (root : PathBuf) (writable : Bool) (k : Kind) : VirtioFs → VirtioFs → Prop
  | tweak {s s' : VirtioFs} (h : Tweak root k.live k.dirtied s s') : Change root writable k s s'
  | newNode (s : VirtioFs) {key : UInt64 × UInt64} {path : PathBuf}
      (h : s.inodeIds.lookup key = none) (hpath : PathBuf.Under root path) :
      Change root writable k s
        { s with
          nextNode := satAdd s.nextNode 1
          nodes := s.nodes.insert s.nextNode { key, paths := [path] }
          inodeIds := s.inodeIds.insert key s.nextNode }
  | remember (s : VirtioFs) {node : UInt64} (h : s.Known node) :
      Change root writable k s (s.rememberLookup node)
  | effect {s s' : VirtioFs} (hk : k.makes = true) (h : Effect root writable k s s') :
      Change root writable k s s'

section

variable {root : PathBuf} {writable : Bool} {live : ℕ → Prop} {pinned : Bool} {k : Kind}
  {s s' : VirtioFs}

/-! ### Inside the export -/

theorem Sheds.good (h : Sheds s s') (hs : s.Good root writable live) :
    s'.Good root writable live := by
  cases h with
  | mk hdirs _ => exact { hs with dirs := hdirs hs.dirs }

theorem Trims.good (h : Trims s s') (hs : s.Good root writable live) :
    s'.Good root writable live := by
  cases h with
  | mk hnodes hsockets _ hlistings =>
    refine { hs with
      nodes := fun id n' hn' p hp => ?_
      sockets := hs.sockets.sub hsockets
      listings := hs.listings.sub hlistings }
    obtain ⟨n, hn, hpaths⟩ := hnodes id n' hn'
    exact hs.nodes id n hn p (hpaths hp)

theorem Tweak.good (h : Tweak root live pinned s s') (hs : s.Good root writable live) :
    s'.Good root writable live := by
  cases h with
  | sheds h => exact h.good hs
  | dirty | tmpfile | lockToPark => exact { hs with }
  | notePosixLock fh call =>
    cases call with
    | flock => exact hs
    | posix => exact { hs with temporaries := hs.temporaries.update fun _ h => h }
  | listings h => exact { hs with listings := h hs.listings }
  | node node h => exact { hs with nodes := hs.nodes.update fun n hn => (h n).paths hn }
  | nodes h => exact { hs with nodes := hs.nodes.mapVal fun _ n hn => (h n).paths hn }
  | socket socket h => exact { hs with sockets := hs.sockets.insert h }

theorem Effect.good (h : Effect root writable k s s') (hs : s.Good root writable live) :
    s'.Good root writable live := by
  cases h with
  | forgetPath path stat => exact (s.forgetNodePath_trims path stat).good hs
  | forgetCount node count => exact (s.forgetCount_trims node count).good hs
  | removeSocket h => exact (s.removeSocket_trims _).good hs
  | insertHandle h hfile htmp hroom =>
    exact { hs with
      nodes := hs.nodes.update fun n hn => hn
      temporaries := hs.temporaries.insert htmp }
  | @release fh handle h =>
    exact (releaseNode_trims _ handle.node).good { hs with temporaries := hs.temporaries.erase }
  | park hnode hpaths hfile => exact { hs with }
  | insertDirHandle h hroom => exact { hs with dirHandles := hs.dirHandles.insert h }
  | releaseDir fh => exact { hs with dirHandles := hs.dirHandles.erase }

/-- **Every step stays inside the export.** -/
theorem Change.good (h : Change root writable k s s') (hs : s.Good root writable k.live) :
    s'.Good root writable k.live := by
  cases h with
  | tweak h => exact h.good hs
  | newNode h hpath =>
    refine { hs with nodes := hs.nodes.insert fun p hp => ?_ }
    rw [List.mem_singleton.mp hp]
    exact hpath
  | remember h => exact { hs with nodes := hs.nodes.update fun n hn => hn }
  | effect _ h => exact h.good hs

/-! ### The files in the tables -/

variable {P : Fd → Prop}

theorem Holds.sheds (hs : s.Holds P) (h : Sheds s s') : s'.Holds P := by
  cases h with
  | mk _ hparked => exact ⟨hs.handles, hs.parked.sub hparked⟩

theorem Holds.trims (hs : s.Holds P) (h : Trims s s') : s'.Holds P := by
  cases h with
  | mk _ _ hparked _ => exact ⟨hs.handles, hs.parked.sub hparked⟩

theorem Holds.tweak (hs : s.Holds P) (h : Tweak root live pinned s s') : s'.Holds P := by
  cases h with
  | sheds h => exact hs.sheds h
  | dirty | tmpfile | lockToPark | listings | node | nodes | socket => exact ⟨hs.handles, hs.parked⟩
  | notePosixLock fh call =>
    cases call with
    | flock => exact hs
    | posix => exact ⟨hs.handles.update fun _ h => h, hs.parked⟩

theorem Holds.effect (hs : s.Holds k.files) (h : Effect root writable k s s') :
    s'.Holds k.files := by
  cases h with
  | forgetPath path stat => exact hs.trims (s.forgetNodePath_trims path stat)
  | forgetCount node count => exact hs.trims (s.forgetCount_trims node count)
  | removeSocket h => exact hs.trims (s.removeSocket_trims _)
  | insertHandle h hfile htmp hroom => exact ⟨hs.handles.insert hfile, hs.parked⟩
  | @release fh handle h =>
    refine Holds.trims (s := { s with handles := s.handles.erase fh }) ?_ (releaseNode_trims _ _)
    exact ⟨hs.handles.erase, hs.parked⟩
  | park hnode hpaths hfile => exact ⟨hs.handles, hs.parked.insert hfile⟩
  | insertDirHandle | releaseDir => exact ⟨hs.handles, hs.parked⟩

/-- **Only the files of the kind come into the tables.** -/
theorem Holds.change (hs : s.Holds k.files) (h : Change root writable k s s') :
    s'.Holds k.files := by
  cases h with
  | tweak h => exact hs.tweak h
  | newNode | remember => exact ⟨hs.handles, hs.parked⟩
  | effect _ h => exact hs.effect h

/-! ### The dirty flag -/

theorem Trims.dirty_eq (h : Trims s s') : s'.dirty = s.dirty := by
  cases h
  rfl

theorem Effect.dirty_eq (h : Effect root writable k s s') : s'.dirty = s.dirty := by
  cases h with
  | forgetPath path stat => exact (s.forgetNodePath_trims path stat).dirty_eq
  | forgetCount node count => exact (s.forgetCount_trims node count).dirty_eq
  | @release fh handle h => exact (releaseNode_trims _ handle.node).dirty_eq
  | removeSocket | insertHandle | park | insertDirHandle | releaseDir => rfl

/-- An export that the request has marked stays marked. -/
theorem Change.dirty (h : Change root writable k s s') (hk : k.dirtied = true)
    (hs : s.dirty = true) : s'.dirty = true := by
  cases h with
  | tweak h =>
    cases h with
    | sheds h =>
      cases h
      exact hs
    | dirty hdirty => exact hdirty hk
    | notePosixLock fh call =>
      cases call with
      | flock => exact hs
      | posix => exact hs
    | tmpfile | lockToPark | listings | node | nodes | socket => exact hs
  | newNode | remember => exact hs
  | effect _ h => exact h.dirty_eq.trans hs

/-! ### What a kind that makes nothing leaves -/

/-- The open handles stay, and so do the nodes that are known; nothing is parked. -/
structure Spare (s s' : VirtioFs) : Prop where
  handles : ∀ fh, (s'.handles.lookup fh).map FileHandle.temporaryPath =
    (s.handles.lookup fh).map FileHandle.temporaryPath
  dirHandles_eq : s'.dirHandles = s.dirHandles
  handleLimit_eq : s'.handleLimit = s.handleLimit
  parked : s'.parked.Sub s.parked
  known : ∀ node, s.Known node → s'.Known node

theorem Spare.refl (s : VirtioFs) : Spare s s := ⟨fun _ => rfl, rfl, rfl, .refl _, fun _ h => h⟩

theorem Spare.trans {s'' : VirtioFs} (h : Spare s s') (h' : Spare s' s'') : Spare s s'' where
  handles fh := (h'.handles fh).trans (h.handles fh)
  dirHandles_eq := h'.dirHandles_eq.trans h.dirHandles_eq
  handleLimit_eq := h'.handleLimit_eq.trans h.handleLimit_eq
  parked := h'.parked.trans h.parked
  known node hn := h'.known node (h.known node hn)

theorem Spare.openHandleCount_eq (h : Spare s s') : s'.openHandleCount = s.openHandleCount := by
  unfold openHandleCount
  rw [HashMap.len_eq_of_lookup h.handles, h.dirHandles_eq]

theorem Spare.roomy (h : Spare s s') (hs : Roomy k s) : Roomy k s' := by
  unfold Roomy
  rw [h.openHandleCount_eq, h.handleLimit_eq]
  exact hs

/-- A node that is known stays so where lookups in the tables only gain. -/
theorem Known.mono {node : UInt64} (h : s.Known node)
    (hnodes : (s.nodes.lookup node).isSome = true → (s'.nodes.lookup node).isSome = true)
    (hids : ∀ key, s.inodeIds.lookup key = some node → s'.inodeIds.lookup key = some node) :
    s'.Known node := by
  rcases h with h | ⟨key, hkey⟩
  · exact .inl (hnodes h)
  · exact .inr ⟨key, hids key hkey⟩

theorem isSome_update {node id : UInt64} {f : Node → Node} {nodes : HashMap UInt64 Node}
    (h : (nodes.lookup id).isSome = true) : ((nodes.update node f).lookup id).isSome = true := by
  rw [HashMap.lookup_update]
  split
  · next hid => rw [Option.isSome_map, ← hid, h]
  · exact h

theorem Tweak.spare (h : Tweak root live pinned s s') : Spare s s' := by
  cases h with
  | sheds h =>
    cases h with
    | mk _ hparked => exact ⟨fun _ => rfl, rfl, rfl, hparked, fun _ h => h⟩
  | dirty | tmpfile | lockToPark | listings | socket =>
    exact ⟨fun _ => rfl, rfl, rfl, .refl _, fun _ h => h⟩
  | notePosixLock fh call =>
    cases call with
    | flock => exact .refl s
    | posix =>
      refine ⟨fun fh' => ?_, rfl, rfl, .refl _, fun _ h => h⟩
      show ((s.handles.update fh _).lookup fh').map FileHandle.temporaryPath = _
      rw [HashMap.lookup_update]
      split
      · next heq =>
        subst heq
        rw [Option.map_map]
        rfl
      · rfl
  | node node h =>
    exact ⟨fun _ => rfl, rfl, rfl, .refl _, fun _ hid => hid.mono isSome_update fun _ hkey => hkey⟩
  | nodes h =>
    refine ⟨fun _ => rfl, rfl, rfl, .refl _, fun id hid => hid.mono (fun hsome => ?_) fun _ hkey =>
      hkey⟩
    rw [HashMap.lookup_mapVal, Option.isSome_map]
    exact hsome

theorem Change.spare (h : Change root writable k.spare s s') :
    Change root writable k s s' ∧ Spare s s' := by
  cases h with
  | tweak h => exact ⟨.tweak h, h.spare⟩
  | @newNode key path h hpath =>
    refine ⟨.newNode s h hpath, fun _ => rfl, rfl, rfl, .refl _,
      fun id hid => hid.mono (fun hsome => ?_) ?_⟩
    · by_cases heq : id = s.nextNode
      · rw [heq, AList.lookup_insert]
        rfl
      · rw [AList.lookup_insert_ne heq]
        exact hsome
    · intro key' hkey'
      rw [AList.lookup_insert_ne]
      · exact hkey'
      · rintro rfl
        cases h.symm.trans hkey'
  | remember h =>
    exact ⟨.remember s h, fun _ => rfl, rfl, rfl, .refl _,
      fun _ hid => hid.mono isSome_update fun _ h => h⟩
  | effect hk => cases hk

end

end VirtioFs
