/-
The requests about names and attributes keep inside the export.

A handler that only looks keeps the rules of every kind.  A handler that changes the tree
starts with `requireWritable`: `Mutating` says so, and that what follows keeps the rules of
every kind whose calls may change the tree, from the states that satisfy a condition on them.
-/
import HviVmm.FsNodesKeep

open CallPrograms Fuse Relation

namespace VirtioFs

open Proc

/-- The handler admits the mutation first and then, on an export that is writable, keeps the
rules from the states that satisfy `P`. -/
def Mutating (root : PathBuf) (writable : Bool) (P : Kind → VirtioFs → Prop) {α : Type} (m : Fs α) :
    Prop :=
  ∃ f : Unit → Fs α, m = requireWritable >>= f ∧
    ∀ k : Kind, k.change = true → k.makes = true → writable = true →
      KeepsWhen root writable k (P k) (f ())

section

variable {root : PathBuf} {writable : Bool} {k : Kind}
variable {α : Type} {path : PathBuf} {target : AttrTarget}

theorem mutating_of_keeps {f : Unit → Fs α}
    (h : ∀ k : Kind, k.change = true → k.makes = true → writable = true →
    Safe root writable k (f ())) :
    Mutating root writable (fun _ _ => True) (requireWritable >>= f) :=
  ⟨f, rfl, fun k hk hmakes hw => .of_keeps (h k hk hmakes hw)⟩

theorem u32At_keeps (input : Bytes) (offset : ℕ) : Safe root writable k (u32At input offset) :=
  .orThrow fun _ _ => trivial

theorem u64At_keeps (input : Bytes) (offset : ℕ) : Safe root writable k (u64At input offset) :=
  .orThrow fun _ _ => trivial

theorem lift_keeps (x : Except Errno α) : Safe root writable k (Proc.lift x : Fs α) :=
  .lift fun _ _ => trivial

/-! ### Looking -/

/-- The guest takes a reference to the node of a socket, which is found or made. -/
theorem socketNode_bind {ino : UInt64} (h : PathBuf.Under root path) {f : UInt64 → Fs α}
    {R : α → Prop} (hf : ∀ node, Keeps (rules root writable k) (f node) R) :
    Keeps (rules root writable k) (do
      let node ← Proc.modifyGet (socketNodeId · path ino)
      Proc.modify (rememberLookup · node)
      f node) R := by
  refine .of_at fun s hs => ?_
  have hnode : KeepsAt (rules root writable k) s
      (Proc.modifyGet (socketNodeId · path ino) : Fs UInt64)
      fun node t => t.Known node := by
    have hsteps : ReflTransGen (Change root writable k) s (s.socketNodeId path ino).1 ∧
        (s.socketNodeId path ino).1.Known (s.socketNodeId path ino).2 := by
      unfold socketNodeId
      split
      · next node hkey => exact ⟨.refl, .inr ⟨_, hkey⟩⟩
      · next hkey => exact ⟨.single (.newNode s hkey h), .inr ⟨_, AList.lookup_insert _⟩⟩
    exact .modifyGet (good_steps hsteps.1 hs) hsteps.1 hsteps.2
  refine hnode.bind fun node t ht _ hknown => ?_
  exact change_bind ht (.remember t hknown) fun hgood => (hf node).keepsAt hgood

theorem lookup_keeps (parent : UInt64) (input : Bytes) :
    Safe root writable k (lookup parent input) := by
  refine .require fun len => ?_
  show Keeps _ (if _ then _ else _) _
  split
  · exact .throw _
  · next hname =>
    push Not at hname
    refine .bind (nodePath_keeps parent) fun parentPath hparent => ?_
    refine .bind get_keeps fun s hs => ?_
    extract_lets root' path
    have hpath : PathBuf.Under root path := by
      show PathBuf.Under root (if _ then _ else if _ then if _ then _ else _ else _)
      rw [show root' = root from hs.root_eq]
      split
      · exact hparent
      · next hdot =>
        split
        · split
          · exact PathBuf.under_root root
          · next hne => exact hparent.parent hne
        · next hdotdot => exact hparent.join ⟨hname.1, hname.2, hdot, hdotdot⟩
    clear_value path
    refine .bind get_keeps fun s hs => ?_
    split
    · exact socketNode_bind hpath fun _ => .pure trivial
    · refine .bind (statInExport_keeps hpath).attempt fun r _ => ?_
      split
      · exact nodeFor_bind hpath fun node => entryOut_keeps node _
      · refine .bind get_keeps fun s _ => ?_
        show Keeps _ (if _ then _ else _) _
        split
        · exact .pure trivial
        · exact .throw _

/-- The stat of GETATTR and STATX, whatever is done by path. -/
theorem statOfNode_keeps (node : UInt64) (flags : UInt32) (fh : UInt64)
    {byPath : PathBuf → Fs Stat} (h : ∀ p, PathBuf.Under root p → Safe root writable k (byPath p)) :
    Safe root writable k (statOfNode node flags fh byPath) := by
  refine .bind get_keeps fun s _ => ?_
  split
  · exact .require fun handle => Io.statOfFd_keeps _
  · split
    · exact .require fun e => Io.statOfFd_keeps _
    · exact .bind (nodePath_keeps node) fun p hp => h p hp

theorem statOrHandle_keeps (node : UInt64) (h : PathBuf.Under root path) :
    Safe root writable k (statOrHandle node path) := by
  refine .bind (statInExport_keeps h).attempt fun r _ => ?_
  split
  · exact .pure trivial
  · refine .bind get_keeps fun s _ => .require fun e => ?_
    exact Io.statOfFd_keeps _
  · exact .throw _

theorem getattr_keeps (node : UInt64) (input : Bytes) :
    Safe root writable k (getattr node input) := by
  refine .bind get_keeps fun s _ => ?_
  split
  · exact .pure trivial
  · refine .bind (statOfNode_keeps node _ _ fun p hp => statOrHandle_keeps node hp) fun stat _ => ?_
    exact attrOut_keeps node stat

theorem statx_keeps (node : UInt64) (input : Bytes) : Safe root writable k (statx node input) := by
  refine .bind (u32At_keeps input 0) fun flags _ => .bind (u64At_keeps input 8) fun fh _ => ?_
  refine .bind (statOfNode_keeps node _ _ fun p hp => statInExport_keeps hp) fun stat _ => ?_
  refine .bind (guestAttr_keeps node stat) fun _ _ => ?_
  exact .bind get_keeps fun _ _ => .pure trivial

theorem readlink_keeps (node : UInt64) : Safe root writable k (readlink node) :=
  .bind (entryAt_keeps node) fun _ he =>
    Io.readLinkAt_keeps he.1 he.2

theorem access_keeps (node : UInt64) (input : Bytes) :
    Safe root writable k (access node input) := by
  refine .bind (u32At_keeps input 0) fun mask _ => ?_
  refine .bind (relativeOf_keeps node) fun relative _ => ?_
  extract_lets answer
  have hanswer : ∀ u, Safe root writable k (answer u) := by
    intro u
    refine .bind get_keeps fun s _ => ?_
    split
    · exact .throw _
    · exact .pure trivial
  clear_value answer
  split
  · refine .bind (entryAt_keeps node) fun e he => ?_
    exact .bind (Io.existsAt_keeps he.1 he.2) fun u _ => hanswer u
  · exact hanswer ()

theorem statfs_keeps : Safe root writable k statfs := by
  refine .bind get_keeps fun s _ => ?_
  refine .bind (Io.ask_keeps fun x =>
    Kind.permits_plain rfl rfl rfl nofun) fun r _ => ?_
  exact .bind (Io.hostResult_keeps fun _ _ => trivial) fun _ _ => .pure trivial

/-! ### Setting attributes -/

theorem invalidateGuestAttr_keeps (node : UInt64) :
    Safe root writable k (Proc.modify (invalidateGuestAttr · node) : Fs Unit) :=
  tweak_keeps fun s => .node s node fun _ => .of_paths rfl rfl

theorem fieldOr_keeps {given : Bool} {field : Fs α} {old : α}
    (h : Safe root writable k field) : Safe root writable k (fieldOr given field old) := by
  unfold fieldOr
  split
  · exact h
  · exact .pure trivial

theorem now_keeps : Safe root writable k (Io.ask .now : Fs (UInt64 × UInt32)) :=
  Keeps.weaken (Io.askPlain_keeps .now rfl rfl rfl nofun) fun _ _ => trivial

theorem socketTime_keeps (valid : UInt32) (input : Bytes) (old : UInt64 × UInt32) :
    Safe root writable k (socketTime valid input old) := by
  -- an explicit time is two fields
  have htime : ∀ i j,
      Safe root writable k (do pure (← u64At input i, ← u32At input j) : Fs (UInt64 × UInt32)) :=
    fun i j => .bind (u64At_keeps input i) fun _ _ =>
      .bind (u32At_keeps input j) fun _ _ => .pure trivial
  exact .ite (fun _ => now_keeps) fun _ => .ite (fun _ => htime 40 60) fun _ =>
    .ite (fun _ => htime 32 56) fun _ => .pure trivial

theorem setattrSocket_keeps (node : UInt64) (valid : UInt32) (input : Bytes) (socket : SocketNode)
    (h : PathBuf.Under root path) :
    Safe root writable k (setattrSocket node valid input path socket) := by
  refine .bind (fieldOr_keeps (.bind (u32At_keeps input 68) fun _ _ => .pure trivial)) fun _ _ => ?_
  refine .bind (fieldOr_keeps (u32At_keeps input 76)) fun _ _ => ?_
  refine .bind (fieldOr_keeps (u32At_keeps input 80)) fun _ _ => ?_
  refine .bind (socketTime_keeps valid input socket.time) fun _ _ => ?_
  exact .bind (tweak_keeps fun s => .socket s _ h) fun _ _ => .pure trivial

/-- What SETATTR changes is inside the export. -/
def AttrTarget.Inside : AttrTarget → Prop
  | .handle _ => True
  | .entry dirfd name _ => EntryOk (dirfd, name)

theorem attrTarget_keeps (node : UInt64) (valid : UInt32) (fh : UInt64) :
    Keeps (rules root writable k) (attrTarget node valid fh) AttrTarget.Inside := by
  unfold attrTarget
  split
  · refine .bind get_keeps fun s _ => .require fun handle => ?_
    exact .pure trivial
  · refine .bind (nodePath_keeps node) fun path hpath => ?_
    refine .bind (relativeOfPath_keeps hpath) fun relative hrel => ?_
    refine .bind (lastName_keeps hrel) fun name hname => ?_
    refine .bind (onDirs_keeps (DirCache.dirFdOwned_keeps hrel.parent)) fun dirfd hdir => ?_
    refine .bind (Io.openEntryNofollow_keeps hdir hname) fun fd _ => ?_
    exact .pure ⟨hdir, hname⟩

theorem AttrTarget.stat_keeps (h : target.Inside) : Safe root writable k target.stat := by
  cases target with
  | handle handle => exact Io.statOfFd_keeps _
  | entry dirfd name fd => exact Io.statAt_keeps h.1 h.2

theorem setattrSize_keeps (hk : k.change = true) (h : target.Inside) (size : UInt64) :
    Safe root writable k (setattrSize target size) := by
  cases target with
  | handle handle =>
    show Keeps _ (if _ then _ else _) _
    split
    · exact .throw _
    · exact Io.setLen_keeps hk _ _
  | entry dirfd name fd =>
    refine .bind (Io.openHostFileAt_keeps h.1 h.2 fun _ => hk) fun file _ => ?_
    exact Io.setLen_keeps hk _ _

theorem setattrOwner_keeps (hk : k.change = true) (h : target.Inside) (valid uid gid : UInt32) :
    Safe root writable k (setattrOwner target valid uid gid) := by
  refine .bind (AttrTarget.stat_keeps h) fun current _ => ?_
  refine .bind (guestAttrOfFd_keeps _ current) fun guest _ => ?_
  exact Io.setGuestAttr_keeps hk _ _

theorem setHostMode_keeps (hk : k.change = true) (h : target.Inside) (current : Stat)
    (newMode : UInt32) : Safe root writable k (setHostMode target current newMode) := by
  unfold setHostMode
  split
  · exact .pure trivial
  · cases target with
    | handle handle => exact Io.setPermissions_keeps hk _ _
    | entry dirfd name fd => exact Io.chmodAt_keeps hk h.1 h.2 _

theorem setattrMode_keeps (hk : k.change = true) (h : target.Inside) (valid mode : UInt32) :
    Safe root writable k (setattrMode target valid mode) := by
  refine .bind (AttrTarget.stat_keeps h) fun current _ => ?_
  extract_lets rest
  have hrest : ∀ newMode, Safe root writable k (rest newMode) := by
    intro newMode
    refine .bind (setHostMode_keeps hk h current _) fun _ _ => ?_
    refine .bind (guestAttrOfFd_keeps _ current) fun guest _ => ?_
    exact Io.setGuestAttr_keeps hk _ _
  clear_value rest
  split
  · exact .pureBind (hrest _)
  · refine .bind (guestAttrOfFd_keeps _ current) fun guest _ => ?_
    exact .pureBind (hrest _)

theorem setattrTimes_keeps (hk : k.change = true) (h : target.Inside)
    (times : Except Errno (TimeSpec × TimeSpec)) :
    Safe root writable k (setattrTimes target times) := by
  refine .bind (lift_keeps times) fun t _ => ?_
  cases target with
  | handle handle => exact Io.hostFutimens_keeps hk _ _
  | entry dirfd name fd => exact Io.hostLutimensAt_keeps hk h.1 h.2 _

theorem handleForOrphan_keeps (node : UInt64) (valid : UInt32) (fh : UInt64) :
    Safe root writable k (handleForOrphan node valid fh) := by
  refine .bind get_keeps fun s _ => ?_
  split
  · exact .require fun e => .pure trivial
  · exact .pure trivial

theorem setattrHost_keeps (hk : k.change = true) (node : UInt64) (valid : UInt32) (input : Bytes) :
    Safe root writable k (setattrHost node valid input) := by
  refine .bind (u64At_keeps input 8) fun fh _ => ?_
  refine .bind (handleForOrphan_keeps node valid fh) fun flagsAndFh _ => ?_
  refine .bind (u64At_keeps input 16) fun size _ => ?_
  refine .bind (u64At_keeps input 32) fun atime _ => .bind (u64At_keeps input 40) fun mtime _ => ?_
  refine .bind (u32At_keeps input 56) fun _ _ => .bind (u32At_keeps input 60) fun _ _ => ?_
  refine .bind (u32At_keeps input 68) fun mode _ => ?_
  refine .bind (u32At_keeps input 76) fun uid _ => .bind (u32At_keeps input 80) fun gid _ => ?_
  split
  · exact .throw _
  · refine .bind (attrTarget_keeps node _ _) fun target htarget => ?_
    refine .whenThen (fun _ => setattrSize_keeps hk htarget _) ?_
    refine .whenThen (fun _ => setattrOwner_keeps hk htarget _ _ _) ?_
    refine .whenThen (fun _ => setattrMode_keeps hk htarget _ _) ?_
    refine .whenThen (fun _ => setattrTimes_keeps hk htarget _) ?_
    refine .bind (AttrTarget.stat_keeps htarget) fun stat _ => ?_
    refine .bind (invalidateGuestAttr_keeps node) fun _ _ => ?_
    exact attrOut_keeps node stat

theorem socketAt_under {live : ℕ → Prop} {s : VirtioFs} (hs : s.Good root writable live)
    {node : UInt64} {socket : SocketNode} (h : s.socketAt node = some (path, socket)) :
    PathBuf.Under root path := by
  simp only [socketAt, Option.bind_eq_bind, Option.bind_eq_some_iff] at h
  obtain ⟨n, -, hn⟩ := h
  split at hn
  · simp only [Option.bind_eq_some_iff, Option.some.injEq, Prod.mk.injEq] at hn
    obtain ⟨p, -, sock, hsock, hp, -⟩ := hn
    exact hp ▸ hs.sockets p sock hsock
  · cases hn

theorem setattr_mutating (node : UInt64) (input : Bytes) :
    Mutating root writable (fun _ _ => True) (setattr node input) := by
  refine mutating_of_keeps fun k hk hmakes _ => ?_
  refine .bind (u32At_keeps input 0) fun valid _ => ?_
  refine .bind get_keeps fun s hs => ?_
  split
  · next path socket hsocket =>
    exact setattrSocket_keeps node valid input socket (socketAt_under hs hsocket)
  · exact setattrHost_keeps hk node valid input

/-! ### Creating -/

theorem createSocket_keeps (mode : UInt32) (context : RequestContext)
    (h : PathBuf.Under root path) : Safe root writable k (createSocket path mode context) := by
  refine .bind (atPath_keeps h) fun e he => ?_
  refine .bind (Io.existsAt_keeps he.1 he.2).attempt fun taken _ => ?_
  refine .bind get_keeps fun s _ => .guard fun _ => ?_
  refine .bind get_keeps fun s _ => .bind now_keeps fun time _ => ?_
  refine .bind (tweak_keeps fun s => .socket s _ h) fun _ _ => ?_
  exact socketNode_bind h fun _ => .pure trivial

theorem initializeAt_keeps (hk : k.change = true) (mode : UInt32) (context : RequestContext)
    (h : PathBuf.Under root path) : Safe root writable k (initializeAt path mode context) :=
  .bind (atPath_keeps h) fun _ he => initializeGuestMetadata_keeps hk mode context he.1 he.2

theorem initialized_keeps (hk : k.change = true) (mode : UInt32) (context : RequestContext)
    (h : PathBuf.Under root path) :
    Safe root writable k (do initializeAt path mode context; newEntry path : Fs Bytes) :=
  .bind (initializeAt_keeps hk mode context h) fun _ _ => newEntry_keeps h

theorem mknod_mutating (parent : UInt64) (input : Bytes) (context : RequestContext) :
    Mutating root writable (fun _ _ => True) (mknod parent input context) := by
  refine mutating_of_keeps fun k hk hmakes _ => ?_
  refine .bind (u32At_keeps input 0) fun mode _ => .bind (lift_keeps _) fun name _ => ?_
  refine .bind (childPath_keeps parent name) fun path hpath => ?_
  refine .ite (fun _ => createSocket_keeps mode context hpath) fun _ => ?_
  refine .ite (fun _ => ?_) fun _ => .ite (fun _ => ?_) fun _ => ?_
  · refine .bind (atPath_keeps hpath) fun e he => ?_
    refine .bind (Io.openHostFileAt_keeps he.1 he.2 fun _ => hk) fun file _ => ?_
    exact initialized_keeps hk mode context hpath
  · refine .bind (atPath_keeps hpath) fun e he => ?_
    refine .bind (Io.mkfifoAt_keeps hk he.1 he.2 _) fun _ _ => ?_
    exact initialized_keeps hk mode context hpath
  · exact .bind (R := fun _ => True) (.throw _) fun _ _ => initialized_keeps hk mode context hpath

theorem mkdir_mutating (parent : UInt64) (input : Bytes) (context : RequestContext) :
    Mutating root writable (fun _ _ => True) (mkdir parent input context) := by
  refine mutating_of_keeps fun k hk hmakes _ => ?_
  refine .bind (u32At_keeps input 0) fun mode _ => .bind (lift_keeps _) fun name _ => ?_
  refine .bind (childPath_keeps parent name) fun path hpath => ?_
  refine .bind (atPath_keeps hpath) fun e he => ?_
  refine .bind (Io.mkdirAt_keeps hk he.1 he.2 _) fun _ _ => ?_
  exact initialized_keeps hk mode context hpath

theorem symlink_mutating (parent : UInt64) (input : Bytes) (context : RequestContext) :
    Mutating root writable (fun _ _ => True) (symlink parent input context) := by
  refine mutating_of_keeps fun k hk hmakes _ => ?_
  refine .bind (lift_keeps _) fun nameAndEnd _ => .bind (lift_keeps _) fun target _ => ?_
  refine .bind (childPath_keeps parent _) fun path hpath => ?_
  refine .bind (atPath_keeps hpath) fun e he => ?_
  refine .bind (Io.symlinkAt_keeps hk target he.1 he.2) fun _ _ => ?_
  exact initialized_keeps hk _ context hpath

theorem link_mutating (newParent : UInt64) (input : Bytes) :
    Mutating root writable (fun _ _ => True) (link newParent input) := by
  refine mutating_of_keeps fun k hk hmakes _ => ?_
  refine .bind (u64At_keeps input 0) fun oldNode _ => .bind (lift_keeps _) fun name _ => ?_
  refine .bind (nodePath_keeps oldNode) fun oldPath hold => ?_
  refine .bind (childPath_keeps newParent name) fun newPath hnew => ?_
  refine .bind (twoEntriesAt_keeps hold hnew) fun e he => ?_
  obtain ⟨⟨holdFd, holdName⟩, hnewFd, hnewName⟩ := he
  refine .bind (Io.hostLink_keeps hk holdFd holdName hnewFd hnewName) fun _ _ => ?_
  exact newEntry_keeps hnew

/-! ### Removing and renaming -/

theorem invalidateDirsByType_tweak (s : VirtioFs) (path : PathBuf) (isDir : Bool) :
    Tweak root k.live k.dirtied s (s.invalidateDirsByType path isDir) := by
  unfold invalidateDirsByType
  split
  · exact .sheds (.refl s)
  · refine .sheds (.mk (fun h => ?_) (.refl _))
    split
    · exact h.forgetSubtree _
    · exact h.forget _

theorem remove_mutating (parent : UInt64) (input : Bytes) (directory : Bool) :
    Mutating root writable (fun _ _ => True) (remove parent input directory) := by
  refine mutating_of_keeps fun k hk hmakes _ => ?_
  refine .bind (lift_keeps _) fun name _ => .bind (childPath_keeps parent name) fun path hpath => ?_
  refine .of_at fun s hs => .get_bind ?_
  split
  · next hsocket =>
    simp only [Bool.and_eq_true] at hsocket
    exact change_bind hs (.effect hmakes (.removeSocket s hsocket.2)) fun hgood =>
      .pure hgood trivial
  · refine Keeps.keepsAt ?_ hs
    refine .bind (atPath_keeps hpath) fun e he => ?_
    refine .bind (Io.statAt_keeps he.1 he.2) fun stat _ => ?_
    refine .bind (Io.unlinkAt_keeps hk he.1 he.2 directory) fun _ _ => ?_
    refine .bind (modify_keeps fun s => ?_) fun _ _ => .pure trivial
    exact .head (.tweak (s.invalidateDirsByType_tweak path stat.isDir))
      (.single (.effect hmakes (.forgetPath _ path stat)))

theorem rewriteRenamedPaths_tweak (s : VirtioFs) {old new : PathBuf} (oldStat : Stat)
    (hold : PathBuf.Under root old) (hnew : PathBuf.Under root new) :
    Tweak root k.live k.dirtied s (s.rewriteRenamedPaths old new oldStat) := by
  have hall : Tweak root k.live k.dirtied s (s.rewriteNodePaths old new) :=
    .nodes s (.move fun _ hp => movePath_under hold hnew hp)
  unfold rewriteRenamedPaths
  split
  · exact hall
  · split
    · exact hall
    · split
      · exact hall
      · refine .node s _ (.move fun p hp => ?_)
        split
        · exact hnew
        · exact hp

theorem renamed_steps (hmakes : k.makes = true) (s : VirtioFs) {old new : PathBuf} (flags : UInt32)
    (stat : Stat) (replaced : Option Stat) (hold : PathBuf.Under root old)
    (hnew : PathBuf.Under root new) :
    ReflTransGen (Change root writable k) s (renamed s flags old new stat replaced) := by
  unfold renamed
  extract_lets movesDirectories s₁ s₂
  have hdirs : ReflTransGen (Change root writable k) s s₂ :=
    .head (.tweak (s.invalidateDirsByType_tweak old _))
      (.single (.tweak (s₁.invalidateDirsByType_tweak new _)))
  clear_value s₂
  split
  · exact hdirs.tail (.tweak (.nodes s₂ (.move fun _ hp => swapPath_under hold hnew hp)))
  · split
    · next stat' =>
      split
      · exact hdirs
      · exact (hdirs.tail (.effect hmakes (.forgetPath s₂ new stat'))).tail
          (.tweak (rewriteRenamedPaths_tweak _ stat hold hnew))
    · exact hdirs.tail (.tweak (rewriteRenamedPaths_tweak s₂ stat hold hnew))

theorem rename_mutating (oldParent : UInt64) (input : Bytes) (version2 : Bool) :
    Mutating root writable (fun _ _ => True) (rename oldParent input version2) := by
  refine mutating_of_keeps fun k hk hmakes _ => ?_
  refine .bind (u64At_keeps input 0) fun newParent _ => ?_
  extract_lets rest
  have hrest : ∀ e, Safe root writable k (rest e) := by
    rintro ⟨flags, namesAt⟩
    refine .guard fun _ => ?_
    refine .bind (lift_keeps _) fun oldNameAndEnd _ => .bind (lift_keeps _) fun newName _ => ?_
    refine .bind (childPath_keeps oldParent _) fun oldPath hold => ?_
    refine .bind (childPath_keeps newParent _) fun newPath hnew => ?_
    refine .bind (twoEntriesAt_keeps hold hnew) fun e he => ?_
    obtain ⟨⟨holdFd, holdName⟩, hnewFd, hnewName⟩ := he
    refine .bind (Io.statAt_keeps holdFd holdName) fun oldStat _ => ?_
    refine .bind (Io.statAt_keeps hnewFd hnewName).attempt fun replaced _ => ?_
    refine .bind (Io.hostRename_keeps hk holdFd holdName hnewFd hnewName flags) fun _ _ => ?_
    refine .bind (modify_keeps fun s => ?_) fun _ _ => .pure trivial
    exact s.renamed_steps hmakes flags oldStat _ hold hnew
  clear_value rest
  refine .ite (fun _ => ?_) fun _ => .pureBind (hrest _)
  exact .bind (u32At_keeps input 8) fun flags _ => .pureBind (hrest _)

/-! ### Extended attributes -/

theorem setxattr_mutating (node : UInt64) (input : Bytes) :
    Mutating root writable (fun _ _ => True) (setxattr node input) := by
  refine mutating_of_keeps fun k hk hmakes _ => ?_
  refine .bind (u32At_keeps input 0) fun size _ => .bind (u32At_keeps input 4) fun flags _ => ?_
  refine .guard fun _ => .bind (lift_keeps _) fun nameAndEnd _ => ?_
  refine .guard fun _ => .guard fun _ => ?_
  refine .bind (openEntryAt_keeps node) fun fd _ => ?_
  exact .bind (Io.fdSetxattr_keeps hk fd _ _ _) fun _ _ => .pure trivial

theorem getxattr_keeps (node : UInt64) (input : Bytes) :
    Safe root writable k (getxattr node input) := by
  refine .bind (u32At_keeps input 0) fun size _ => .bind (lift_keeps _) fun name _ => ?_
  refine .guard fun _ => .bind (openEntryAt_keeps node) fun fd _ => ?_
  exact .bind (Io.fdGetxattr_keeps fd name) fun _ _ => lift_keeps _

theorem listxattr_keeps (node : UInt64) (input : Bytes) :
    Safe root writable k (listxattr node input) := by
  refine .bind (u32At_keeps input 0) fun size _ => .bind (openEntryAt_keeps node) fun fd _ => ?_
  exact .bind (Io.fdListxattr_keeps fd) fun _ _ => lift_keeps _

theorem removexattr_mutating (node : UInt64) (input : Bytes) :
    Mutating root writable (fun _ _ => True) (removexattr node input) := by
  refine mutating_of_keeps fun k hk hmakes _ => .bind (lift_keeps _) fun name _ => ?_
  refine .guard fun _ => .bind (openEntryAt_keeps node) fun fd _ => ?_
  exact .bind (Io.fdRemovexattr_keeps hk fd name) fun _ _ => .pure trivial

end

end VirtioFs
