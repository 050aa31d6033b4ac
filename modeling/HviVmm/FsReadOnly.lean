/-
Requests of virtio-fs that are classified as read-only.

A prepared listing is kept across a request for which `request_is_read_only` is true, so such a
request must leave the tree as it is.

* `not_changes_of_readOnly` — a request on the list, other than a RELEASE, is none that may change
  the tree;
* `readOnly_ensures` — while it is served, no call changes the tree, unless it is served as a
  RELEASE of a handle that owns a tmpfile;
* `release_reaches` — such a RELEASE comes to the call that removes the name, if the host lets it;
* `FsSystem.read_only_request_still` — the two of every run, with the workers in between;
* `release_removes_name` — a RELEASE of such a handle, which is on the list, removes a name.
-/
import HviVmm.CallEquations
import HviVmm.FsDurability

open CallPrograms CallPrograms.Proc Fuse LabelledSteps Relation

/-! ### The list -/

/-- What a read-only request may do: ask the workers, sync the volume and leave a lock to be
parked, but not change the tree. -/
def Kind.reading (live : ℕ → Prop) : Kind where
  prepared := true
  sync := true
  live := live

namespace VirtioFs

variable {raw : Bytes}

open Proc

/-- The request is one that `request_is_read_only` accepts. -/
def ReadOnly (raw : Bytes) : Prop :=
  requestIsReadOnly ((getU32 raw 4).getD 0) (raw.drop inHeaderLen) = true

instance (raw : Bytes) : Decidable (ReadOnly raw) := inferInstanceAs (Decidable (_ = true))

/-- The request lets go of a handle that owns a tmpfile. -/
def ReleasesTemporary (s : VirtioFs) (raw : Bytes) : Prop :=
  requestOp raw = some .release ∧ ∃ fh handle, getU64 (requestPayload raw) 0 = some fh ∧
    s.handles.lookup fh = some handle ∧ handle.temporaryPath.isSome = true

/-- A word that is whole in a prefix is the word of the whole. -/
theorem getU32_of_take {bytes : Bytes} {offset n : ℕ} {x : UInt32}
    (h : getU32 (bytes.take n) offset = some x) : getU32 bytes offset = some x := by
  have hlen : offset + 4 ≤ n := by
    by_contra hlt
    rw [getU32, if_neg (by rw [List.length_take]; omega)] at h
    cases h
  rwa [getU32_take hlen] at h

/-- What the payload holds, the bytes behind the header hold too. -/
theorem getU32_requestPayload {offset : ℕ} {x : UInt32}
    (h : getU32 (requestPayload raw) offset = some x) :
    getU32 (raw.drop inHeaderLen) offset = some x := by
  rw [requestPayload, List.drop_take] at h
  exact getU32_of_take h

theorem openChanges_of_readOnly (h : ReadOnly raw) (hop : requestOp raw = some .openFile)
    {flags openFlags : UInt32} (hflags : getU32 (requestPayload raw) 0 = some flags)
    (hopen : getU32 (requestPayload raw) 4 = some openFlags) :
    openChanges flags openFlags = false := by
  unfold ReadOnly requestIsReadOnly at h
  rw [show Opcode.decode ((getU32 raw 4).getD 0) = some .openFile from hop] at h
  simp only [getU32_requestPayload hflags, getU32_requestPayload hopen, Bool.not_eq_true',
    openWantsWrite, Bool.or_eq_false_iff] at h
  rw [openChanges, h.1.2, h.2]
  rfl

/-- **A request on the list that is no RELEASE changes nothing.** -/
theorem not_changes_of_readOnly (h : ReadOnly raw) (hrelease : requestOp raw ≠ some .release) :
    changes (requestOp raw) (requestPayload raw) = false := by
  cases hop : requestOp raw with
  | none => rfl
  | some op =>
    by_cases hopen : op = .openFile
    · -- an OPEN is on the list by its flags
      subst hopen
      unfold changes
      dsimp only
      split
      · next flags openFlags hflags hopenFlags =>
        exact openChanges_of_readOnly h hop hflags hopenFlags
      · rfl
    · unfold ReadOnly requestIsReadOnly at h
      rw [show Opcode.decode ((getU32 raw 4).getD 0) = some op from hop] at h
      rw [hop] at hrelease
      cases op with
      | openFile => exact absurd rfl hopen
      | release => exact absurd rfl hrelease
      | setattr | symlink | mknod | mkdir | unlink | rmdir | rename | rename2 | link | write
      | create | setxattr | removexattr | fallocate | copyFileRange | tmpfile => cases h
      | _ => rfl

/-- The kind of a reading request allows what it does. -/
theorem serves_reading {writable : Bool} {live : ℕ → Prop} (h : ReadOnly raw) :
    Serves writable (Kind.reading live) (requestOp raw) (requestPayload raw) where
  change hchanges hrelease := by
    rw [not_changes_of_readOnly h hrelease] at hchanges
    cases hchanges
  prepared _ := rfl
  sync _ := ⟨rfl, rfl⟩

end VirtioFs

namespace FsGuest

open Proc VirtioFs

variable {root : PathBuf} {writable : Bool} {live : ℕ → Prop} {g : FsGuest} {i : Fin 2}
  {head : UInt16} {raw : Bytes}

/-- The chain is served, its length is as its header declares, and it lets go of a handle that
owns a tmpfile. -/
def RemovesTemporary (g : FsGuest) (i : Fin 2) (head : UInt16) (raw : Bytes) : Prop :=
  g.accepts i head = true ∧ ¬ Malformed raw ∧ g.dev.ReleasesTemporary raw

/-- **A read-only request makes no call that changes the tree**, unless it is served as a RELEASE
of a handle that owns a tmpfile. -/
theorem readOnly_ensures (hg : g.dev.Good root writable live)
    (hraw : g.askedWhole i head = some raw)
    (hread : ReadOnly raw) (htmp : ¬ g.RemovesTemporary i head raw) :
    ((FsOp.request i head).serve g).Ensures (Kind.reading live).Fair (Kind.reading live).Permits
      fun r => r.2.dev.Good root writable live := by
  have hgood : (rules root writable (Kind.reading live)).good g :=
    good_of_files (fun _ => trivial) hg Bool.noConfusion
  have hkind : FsOp.OfKind writable (Kind.reading live) g (.request i head) := by
    refine fun haccepts => ⟨fun header hheader hwrite => ?_, fun raw' hraw' => ?_⟩
    · -- a WRITE is not on the list
      have hop : requestOp raw = some .write :=
        (FsOp.requestOp_header (inHeaderLen_le_of_accepts haccepts) hheader hraw).symm.trans hwrite
      have hchanges := not_changes_of_readOnly hread (by rw [hop]; decide)
      rw [hop] at hchanges
      cases hchanges
    · obtain rfl := Option.some.inj (hraw.symm.trans hraw')
      refine or_iff_not_imp_left.mpr fun hwell => ⟨serves_reading hread, meets_ungated rfl ?_⟩
      intro hop fh handle hfh hhandle hsome
      exact absurd ⟨haccepts, hwell, hop, fh, handle, hfh, hhandle, hsome⟩ htmp
  exact (FsOp.serve_at rfl hgood hkind).imp fun r hr => hr.1.1

end FsGuest

/-! ### Coming to the removal -/

/-- An answer of a fair host in which the workers have no part. -/
def HostAnswer (c : HostCall) : Prop := HostFair c ∧ c.op.isReadahead = false

/-- The procedure can return and leave the state alone, or come to a call that changes the
tree. -/
abbrev Passes {σ α : Type} (m : Io σ α) (s : σ) (R : α → Prop) : Prop :=
  Comes HostAnswer (fun c => c.op.mutates = true) m s fun a s' => R a ∧ s' = s

/-- The host takes the names of a path. -/
def CStrings (names : List Name) : Prop := ∀ name ∈ names, 0 ∉ name

namespace DirCache

variable {σ : Type} {s : σ} {root : Fd}

theorem openDirNofollowAt_passes (dir : Fd) {name : Name} (h : 0 ∉ name) :
    Passes (Io.openDirNofollowAt dir name) s fun _ => True := by
  unfold Passes Comes Io.openDirNofollowAt
  rw [cstring, if_neg h]
  exact ⟨.ok 0, ⟨trivial, rfl⟩, .inr ⟨_, rfl, trivial, rfl⟩⟩

theorem openResolvedFrom_passes {names : List Name} (h : CStrings names) (current : Option Fd) :
    Passes (openResolvedFrom root current names) s
      fun o => (names ≠ [] ∨ current.isSome = true) → o.isSome = true := by
  induction names generalizing current with
  | nil => exact ⟨_, rfl, fun ho => ho.resolve_left (absurd rfl), rfl⟩
  | cons name names ih =>
    obtain ⟨hname, hnames⟩ := List.forall_mem_cons.mp h
    refine Comes.bind (openDirNofollowAt_passes _ hname) ?_
    rintro fd s' ⟨-, rfl⟩
    refine Prog.Reaches.imp (ih hnames (some fd)) ?_
    rintro r ⟨o, hr, ho, hs⟩
    exact ⟨o, hr, fun _ => ho (.inr rfl), hs⟩

/-- A walk over names the host knows as directories meets no symlink. -/
theorem walkAlong_passes (expand : List Name → List Name → Io σ Fd) {pending resolved : List Name}
    (hproper : PathBuf.Proper pending) (hpending : CStrings pending) (hresolved : CStrings resolved)
    (hne : pending = [] → resolved ≠ []) :
    Passes (walkAlong root expand pending resolved) s fun _ => True := by
  induction pending generalizing resolved with
  | nil =>
    refine Comes.bind (openResolvedFrom_passes hresolved none) ?_
    rintro o s' ⟨ho, rfl⟩
    obtain ⟨fd, rfl⟩ := Option.isSome_iff_exists.mp (ho (.inl (hne rfl)))
    exact ⟨fd, rfl, trivial, rfl⟩
  | cons name pending ih =>
    obtain ⟨hname, hpending⟩ := List.forall_mem_cons.mp hpending
    obtain ⟨hcomponent, hproper⟩ := List.forall_mem_cons.mp hproper
    rw [walkAlong, if_neg hcomponent.2.2.1, if_neg hcomponent.2.2.2]
    refine Comes.bind (openResolvedFrom_passes hresolved none) ?_
    rintro o s' ⟨-, rfl⟩
    refine Comes.bind (openDirNofollowAt_passes _ hname).attempt ?_
    rintro _ s' ⟨fd, rfl, -, rfl⟩
    refine ih hproper hpending (fun n hn => ?_) fun _ => by simp
    rcases List.mem_append.mp hn with hn | hn
    · exact hresolved n hn
    · exact List.mem_singleton.mp hn ▸ hname

theorem walk_passes {relative : PathBuf} (hproper : PathBuf.Proper relative)
    (hnames : CStrings relative) (hne : relative ≠ []) :
    Passes (walk root relative) s fun _ => True := by
  have hdotdot : dotdot ∉ relative := fun h => (hproper _ h).2.2.2 rfl
  unfold Passes Comes walk
  rw [if_neg hdotdot]
  exact walkAlong_passes _ hproper hnames (fun _ h => nomatch h) fun h => absurd h hne

/-- What was touched is still there. -/
theorem lookup_touch {d : DirCache} {relative : PathBuf}
    (h : (d.openDirs.lookup relative).isSome = true) :
    ((d.touch relative).openDirs.lookup relative).isSome = true := by
  obtain ⟨⟨fd, tick⟩, hlookup⟩ := Option.isSome_iff_exists.mp h
  have hcompact : ∀ d : DirCache, d.compactLru.openDirs = d.openDirs := fun d => by
    unfold compactLru
    split <;> rfl
  unfold touch
  dsimp only
  rw [hcompact, hlookup]
  simp

/-- A descriptor for a directory can be had. -/
theorem dirFd_comes {relative : PathBuf} (hproper : PathBuf.Proper relative)
    (hnames : CStrings relative) (d : DirCache) :
    Comes HostAnswer (fun c => c.op.mutates = true) (dirFd relative) d fun _ _ => True := by
  unfold dirFd Comes
  rw [get_bind_apply]
  by_cases hne : relative = []
  · rw [if_pos hne]
    exact ⟨d.root, rfl, trivial⟩
  rw [if_neg hne]
  cases d.caching with
  | false =>
    refine Comes.bind (walk_passes hproper hnames hne) ?_
    rintro fd d' ⟨-, rfl⟩
    exact ⟨fd, rfl, trivial⟩
  | true =>
    by_cases hcached : (d.openDirs.lookup relative).isSome = true
    · -- the entry that was touched is found
      obtain ⟨e, he⟩ := Option.isSome_iff_exists.mp (lookup_touch hcached)
      rw [if_neg (by decide), if_pos hcached, modify_bind_apply]
      beta_reduce
      rw [get_bind_apply, he]
      exact ⟨e.1, rfl, trivial⟩
    · rw [if_neg (by decide), if_neg hcached]
      refine Comes.bind (walk_passes hproper hnames hne) ?_
      rintro fd d' ⟨-, rfl⟩
      -- and so is the one that was admitted
      have hadmitted : ((d'.admitDir relative fd).openDirs.lookup relative).isSome = true := by
        simp [admitDir]
      obtain ⟨e, he⟩ := Option.isSome_iff_exists.mp hadmitted
      rw [modify_bind_apply]
      beta_reduce
      rw [get_bind_apply, he]
      exact ⟨e.1, rfl, trivial⟩

end DirCache

namespace VirtioFs

variable {root rel : PathBuf} {s : VirtioFs} {raw : Bytes}

/-- Some answers of the host bring the program to a call that changes the tree. -/
abbrev Changes {α : Type} (m : Prog HostOp HostOp.Ans α) : Prop :=
  m.Reaches HostAnswer (fun c => c.op.mutates = true) fun _ => False

/-- The directory of a path can be opened, and its last name is one the host takes. -/
theorem atRelative_comes {dir : PathBuf} {name : Name} (hproper : PathBuf.Proper (dir ++ [name]))
    (hnames : CStrings (dir ++ [name])) :
    Comes HostAnswer (fun c => c.op.mutates = true) (atRelative (dir ++ [name])) s
      fun _ _ => True := by
  have hlast : Passes (lastName (dir ++ [name])) s fun _ => True := by
    have hfile : PathBuf.fileName (dir ++ [name]) = some name := by
      simp [PathBuf.fileName, (hproper name (by simp)).2.2.2]
    have hname : cstring name = .ok name := if_neg (hnames name (by simp))
    unfold lastName Passes Comes
    rw [hfile, orThrow_some, pure_bind_apply, hname]
    exact ⟨name, rfl, trivial, rfl⟩
  have hdir : Comes HostAnswer (fun c => c.op.mutates = true)
      (onDirs (DirCache.dirFd dir)) s fun _ _ => True := by
    have hmem : ∀ n ∈ dir, n ∈ dir ++ [name] := fun n hn => List.mem_append_left _ hn
    refine Prog.Reaches.bind (DirCache.dirFd_comes (fun n hn => hproper n (hmem n hn))
      (fun n hn => hnames n (hmem n hn)) s.dirs) ?_
    rintro ⟨r, d⟩ ⟨fd, hr, -⟩
    exact ⟨fd, hr, trivial⟩
  refine hlast.bind ?_
  rintro last s' ⟨-, rfl⟩
  rw [PathBuf.parent_getD, List.dropLast_concat]
  exact hdir.bind fun fd s' _ => ⟨(fd, last), rfl, trivial⟩

/-- The name of a tmpfile comes to be removed. -/
theorem removeTemporary_changes (hroot : s.root = root) (hproper : PathBuf.Proper rel)
    (hnames : CStrings rel) (hne : rel ≠ []) :
    Changes (removeTemporary (some (root ++ rel)) s) := by
  have hrel : Passes (relativeOfPath (root ++ rel)) s fun rel' => rel' = rel := by
    have hbelow : (root ++ rel).below s.root = some rel :=
      PathBuf.below_eq_some.mpr (by rw [hroot])
    unfold relativeOfPath Passes Comes
    rw [get_bind_apply, hbelow]
    exact ⟨rel, rfl, rfl, rfl⟩
  obtain ⟨dir, name, rfl⟩ : ∃ dir name, rel = dir ++ [name] :=
    ⟨_, _, (List.dropLast_append_getLast hne).symm⟩
  refine hrel.bind ?_
  rintro _ s' ⟨rfl, rfl⟩
  refine (atRelative_comes hproper hnames).attempt.bind ?_
  rintro _ s' ⟨⟨fd, last⟩, rfl, -⟩
  exact ⟨.ok (), ⟨trivial, rfl⟩, .inl rfl⟩

/-- A handle with a tmpfile is let go of.  The lock on it, if one is to be dropped, comes before
the name. -/
theorem releaseHandle_changes (hroot : s.root = root) (fh : UInt64) (flags : UInt32)
    {handle : FileHandle} (htmp : handle.temporaryPath = some (root ++ rel))
    (hproper : PathBuf.Proper rel) (hnames : CStrings rel) (hne : rel ≠ []) :
    Changes (releaseHandle fh flags handle s) := by
  have hroot' : (({ s with handles := s.handles.erase fh }).releaseNode handle.node).root =
    root := by
    have htrims := releaseNode_trims { s with handles := s.handles.erase fh } handle.node
    generalize ({ s with handles := s.handles.erase fh }).releaseNode handle.node = s' at htrims
    obtain ⟨⟩ := htrims
    exact hroot
  have hremove : ∀ s' : VirtioFs, s'.root = root → Changes ((do
      if handle.temporaryPath.isSome then
        removeTemporary handle.temporaryPath
        pure []
      else
        parkReleased handle flags
        pure [] : Fs Bytes) s') := by
    intro s' hs'
    rw [htmp]
    exact (removeTemporary_changes hs' hproper hnames hne).first _
  have hunlock : ∀ s' : VirtioFs, Passes (unlockFlock handle.file) s' fun _ => True :=
    fun s' => ⟨.ok (), ⟨trivial, rfl⟩, .inr ⟨(), rfl, trivial, rfl⟩⟩
  unfold releaseHandle
  cases has flags fuseReleaseFlockUnlock with
  | true =>
    refine (hunlock _).bind ?_
    rintro _ s' ⟨-, rfl⟩
    exact hremove _ hroot'
  | false => exact hremove _ hroot'

/-- **A RELEASE of a handle with a tmpfile** comes to the call that removes the name. -/
theorem release_reaches (hroot : s.root = root) (hwell : ¬ Malformed raw) (hread : ReadOnly raw)
    {fh : UInt64} {handle : FileHandle} (hop : requestOp raw = some .release)
    (hfh : getU64 (requestPayload raw) 0 = some fh) (hhandle : s.handles.lookup fh = some handle)
    (htmp : handle.temporaryPath = some (root ++ rel)) (hproper : PathBuf.Proper rel)
    (hnames : CStrings rel) (hne : rel ≠ []) (maxOut : ℕ) : Changes (handleFuse raw maxOut s) := by
  have hrelease : Changes (release (requestPayload raw) s) := by
    unfold release u64At
    rw [hfh, orThrow_some, pure_bind_apply, get_bind_apply, hhandle, orThrow_some, pure_bind_apply]
    exact releaseHandle_changes hroot fh _ htmp hproper hnames hne
  have hanswer : Changes (answerRequest raw maxOut s) := by
    unfold Malformed at hwell
    unfold requestOp at hop
    simp only [answerRequest, if_neg hwell, hop]
    exact (hrelease.first _).first _
  unfold handleFuse
  rw [show requestIsReadOnly _ _ = true from hread]
  exact hanswer

end VirtioFs

namespace FsGuest

open VirtioFs

variable {root : PathBuf} {writable : Bool} {live : ℕ → Prop} {g : FsGuest} {i : Fin 2}
  {head : UInt16} {raw : Bytes}

/-- The tmpfiles of the handles have paths below the root that the host takes. -/
def TmpfilesNamed (root : PathBuf) (s : VirtioFs) : Prop :=
  ∀ fh handle path, s.handles.lookup fh = some handle → handle.temporaryPath = some path →
    ∃ rel, path = root ++ rel ∧ rel ≠ [] ∧ CStrings rel

/-- A request that neither direct path takes is served as it is gathered whole. -/
theorem handleFuseDesc_release (hlen : inHeaderLen ≤ totalLen (g.chainInput i head))
    (hraw : g.askedWhole i head = some raw) (hop : requestOp raw = some .release)
    (output : List Seg) (maxOut : ℕ) :
    ∃ f : Except Errno Bytes × FsGuest → Prog HostOp HostOp.Ans (Except Errno FsReply × FsGuest),
      handleFuseDesc (g.chainInput i head) output maxOut g =
        (onDev (handleFuse raw maxOut) g).bind f := by
  have hheader : gatherBytes g.mem (g.chainInput i head) 0 inHeaderLen =
      some (raw.take inHeaderLen) := by
    have htake := gatherFrom_take hlen hraw (Nat.zero_le _)
    rwa [List.take_nil] at htake
  have hop' : requestOp (raw.take inHeaderLen) = some .release := by
    rw [requestOp, getU32_take (by decide)]
    exact hop
  rw [handleFuseDesc_buffered output maxOut hheader (by rw [hop']; decide)
    fun h => absurd (hop'.symm.trans h) (by decide)]
  exact ⟨_, handleFuseGathered_eq _ maxOut hraw⟩

/-- **A chain that carries such a RELEASE** comes to a call that changes the tree. -/
theorem removesTemporary_changes (hg : g.dev.Good root writable live)
    (hraw : g.askedWhole i head = some raw) (hread : ReadOnly raw)
    (hnames : TmpfilesNamed root g.dev) (h : g.RemovesTemporary i head raw) :
    Changes ((FsOp.request i head).serve g) := by
  obtain ⟨haccepts, hwell, hop, fh, handle, hfh, hhandle, hsome⟩ := h
  obtain ⟨path, hpath⟩ := Option.isSome_iff_exists.mp hsome
  obtain ⟨rel, rfl, hne, hcstrings⟩ := hnames fh handle path hhandle hpath
  have hproper : PathBuf.Proper rel :=
    (hg.temporaries fh handle hhandle _ hpath).1.below (PathBuf.below_eq_some.mpr rfl)
  have hfuse : ∀ maxOut, Changes (handleFuse raw maxOut g.dev) := fun maxOut =>
    release_reaches hg.root_eq hwell hread hop hfh hhandle hpath hproper hcstrings hne maxOut
  have hdesc : ∀ output maxOut, Changes (handleFuseDesc (g.chainInput i head) output maxOut g) := by
    intro output maxOut
    obtain ⟨f, hf⟩ :=
      handleFuseDesc_release (inHeaderLen_le_of_accepts haccepts) hraw hop output maxOut
    rw [hf]
    exact ((hfuse maxOut).first _).first f
  have hchain : Changes (handleChain i head g) := by
    rw [handleChain_eq, if_pos haccepts]
    exact (hdesc _ _).first _
  exact hchain.first _

end FsGuest

/-! ### Runs -/

namespace FsSystem

variable {root : PathBuf} {writable : Bool} {s s' : FsSystem} {l : FsEvent}

/-- Steps in which the operation that is being served has not come to its end. -/
def During : FsSystem → FsSystem → Prop :=
  ReflTransGen fun s s' => (∃ l, Step l s s') ∧ s'.serving ≠ none

/-- A request is being served that will make no call that changes the tree. -/
structure Reading (root : PathBuf) (writable : Bool) (s : FsSystem) : Prop where
  sys : s.Inv root writable
  serving : ∀ t, s.serving = some t → t.rest.Ensures (Kind.reading (Live s.lastEnd)).Fair
    (Kind.reading (Live s.lastEnd)).Permits fun _ => True

theorem mutates_of_permits {k : Kind} {c : HostCall} (h : k.Permits c) (hk : k.change = false) :
    c.op.mutates = false := by
  cases hmut : c.op.mutates with
  | false => rfl
  | true => exact absurd (h.change hmut) (by rw [hk]; nofun)

/-- A call the server or a worker makes meanwhile. -/
theorem Reading.call_still (h : s.Reading root writable) {c : HostCall}
    (hstep : Step (.call c) s s') : c.op.mutates = false := by
  generalize hl : FsEvent.call c = l at hstep
  cases hstep with
  | call hs hfair hanswer =>
    cases hl
    have hfair' : (Kind.any writable (Live s.lastEnd)).Fair _ :=
      fair_any h.sys.readahead hfair hanswer
    have hrest := h.serving _ hs _ hfair'
    exact mutates_of_permits hrest.1 rfl
  | work hbusy hrest hfair =>
    cases hl
    have hpermits := (work_inv h.sys hbusy hrest hfair).1
    exact mutates_of_permits hpermits rfl
  | _ => cases hl

theorem Reading.step (h : s.Reading root writable) (hstep : Step l s s')
    (hbefore : s.serving ≠ none) (hafter : s'.serving ≠ none) : s'.Reading root writable := by
  have hinv := (step_inv h.sys hstep).1
  cases hstep with
  | outside hidle hout => exact absurd hidle hbefore
  | start op hidle => exact absurd hidle hbefore
  | call hs hfair hanswer =>
    have hfair' : (Kind.any writable (Live s.lastEnd)).Fair _ :=
      fair_any h.sys.readahead hfair hanswer
    have hrest := h.serving _ hs _ hfair'
    refine ⟨hinv, fun t ht => ?_⟩
    obtain rfl := Option.some.inj ht
    exact hrest.2
  | endRejecting hs hr => exact absurd rfl hafter
  | endOther hs hr => exact absurd rfl hafter
  | pop hidle hstopped hpop => exact ⟨hinv, h.serving⟩
  | work hbusy hrest hfair => exact ⟨hinv, h.serving⟩
  | publish hbusy hrest => exact ⟨hinv, h.serving⟩
  | stop => exact ⟨hinv, h.serving⟩
  | exit hidle hstopped => exact ⟨hinv, h.serving⟩

/-- It is being served, whatever is done meanwhile. -/
theorem Reading.during (h : s.Reading root writable) (hserving : s.serving ≠ none)
    (hduring : During s s') : s'.Reading root writable := by
  suffices s'.Reading root writable ∧ s'.serving ≠ none from this.1
  induction hduring with
  | refl => exact ⟨h, hserving⟩
  | tail _ hlast ih =>
    obtain ⟨⟨l, hstep⟩, hafter⟩ := hlast
    exact ⟨ih.1.step hstep ih.2 hafter, hafter⟩

/-- What a program can come to, a run comes to. -/
theorem changes_during
    {rejects : Prop} {rest : Prog HostOp HostOp.Ans (Except Errno Unit × FsGuest)}
    (h : VirtioFs.Changes rest) (hs : s.serving = some ⟨rejects, rest⟩) :
    ∃ s₂ s₃ c, During s s₂ ∧ Step (.call c) s₂ s₃ ∧ c.op.mutates = true := by
  induction rest generalizing s with
  | ret a => exact h.elim
  | call op k ih =>
    obtain ⟨x, ⟨hfair, hplain⟩, hcall⟩ := h
    have hstep := Step.call hs hfair (answers_plain s.readahead hplain x)
    rcases hcall with hmutates | hrest
    · exact ⟨s, _, _, .refl, hstep, hmutates⟩
    · obtain ⟨s₂, s₃, c, hduring, hc, hmutates⟩ := ih x hrest (s := { s with
        serving := some ⟨rejects, k x⟩, readahead := s.readahead, clock := s.clock + 1
        lastInvalidate := if op = .raInvalidate then s.clock + 1 else s.lastInvalidate }) rfl
      exact ⟨s₂, s₃, c, .head ⟨⟨_, hstep⟩, nofun⟩ hduring, hc, hmutates⟩

/-- **A read-only request leaves the tree as it is**: from its start to its end, neither the server
nor a worker makes a call that creates, removes, renames, writes, truncates or allocates anything
or changes attributes, in any run of the device and whatever the host answers.  It is so exactly if
the request is not served as a RELEASE of a handle that owns a tmpfile. -/
theorem read_only_request_still {rootStat : Stat} {rootFd : ℕ} {cachePolicy : CachePolicy}
    {ids : GuestIds} {process : HostProcess} {handleLimit dirLimit : ℕ}
    {i : Fin 2} {head : UInt16} {raw : Bytes}
    (h : Reachable (VirtioFs.new root rootStat rootFd writable cachePolicy ids process handleLimit
      dirLimit) s) (hidle : s.serving = none) (hraw : s.guest.askedWhole i head = some raw)
    (hread : VirtioFs.ReadOnly raw) (hnames : FsGuest.TmpfilesNamed root s.guest.dev) :
    (∀ s₁ s₂ s₃ c, Step (.start (.request i head)) s s₁ → During s₁ s₂ → Step (.call c) s₂ s₃ →
      c.op.mutates = false) ↔ ¬ s.guest.RemovesTemporary i head raw := by
  have hinv : s.Inv root writable :=
    h.inv fun _ => new_good root rootStat rootFd writable cachePolicy ids process handleLimit
      dirLimit _
  constructor
  · intro hstill hremoves
    have hstart := Step.start (.request i head) hidle
    obtain ⟨s₂, s₃, c, hduring, hcall, hmutates⟩ := changes_during
      (FsGuest.removesTemporary_changes (hinv.guest hidle) hraw hread hnames hremoves)
      (s := { s with serving := some ⟨_, _⟩, clock := s.clock + 1 }) rfl
    rw [hstill _ s₂ s₃ c hstart hduring hcall] at hmutates
    cases hmutates
  · intro htmp s₁ s₂ s₃ c hstart hduring hcall
    have hinv₁ := (step_inv hinv hstart).1
    obtain ⟨hreading, hserving⟩ : s₁.Reading root writable ∧ s₁.serving ≠ none := by
      generalize hl : FsEvent.start (.request i head) = l at hstart
      cases hstart with
      | start op hidle =>
        cases hl
        refine ⟨⟨hinv₁, fun t ht => ?_⟩, nofun⟩
        obtain rfl := Option.some.inj ht
        refine (FsGuest.readOnly_ensures (hinv.guest hidle) hraw hread htmp).imp fun _ _ => trivial
      | _ => cases hl
    exact (hreading.during hserving hduring).call_still hcall

end FsSystem

/-! ### A RELEASE of a tmpfile -/

namespace FsSystem

/-- A request can be asked, and its first call made. -/
theorem ask_first_call {host : HostRule} (hfair : host.Fair) {s : FsSystem} (request : Bytes)
    (hidle : s.serving = none) {op : HostOp} (hnext : (asked s.guest request).nextOp = some op)
    (hplain : op.isReadahead = false) :
    ∃ s' s₁ s₂, Step .silent s s' ∧ s'.guest = s.guest.ask request 4096 ∧ s'.serving = none ∧
      Step (.start (.request 0 0)) s' s₁ ∧ Step (.call ⟨op, host op⟩) s₁ s₂ := by
  obtain ⟨s', hask, hidle', hguest, -, -⟩ := ask_step request 4096 hidle
  obtain ⟨s₁, hstart, hserving, -, -⟩ := start_step (.request 0 0) hidle'
  rw [hguest] at hserving
  unfold asked at hnext
  cases hrest : (FsOp.request 0 0).serve (s.guest.ask request 4096) with
  | ret a =>
    rw [hrest] at hnext
    cases hnext
  | call op' k =>
    rw [hrest] at hnext hserving
    obtain rfl := Option.some.inj hnext
    exact ⟨s', s₁, _, hask, hguest, hidle', hstart,
      .call hserving (hfair op') (answers_plain s₁.readahead hplain (host op'))⟩

end FsSystem

theorem lookupF_whole : (cleanGuest.ask lookupF 4096).askedWhole 0 0 = some lookupF := by
  decide +kernel

/-- LOOKUP of `f` looks at the entry of that name. -/
theorem read_only_request_still_lookup :
    ∃ s s₁ s₂ c, FsSystem.Reachable (smallExport true) s ∧
      FsSystem.Step (.start (.request 0 0)) s s₁ ∧ FsSystem.Step (.call c) s₁ s₂ ∧
      c.op.mutates = false := by
  have hnext : (asked cleanGuest lookupF).nextOp = some (.fstatat ⟨3, .root⟩ [102]) := by
    decide +kernel
  obtain ⟨s, s₁, s₂, hask, hguest, hidle, hstart, hcall⟩ := FsSystem.ask_first_call
    (s := { guest := cleanGuest }) oneFile_fair lookupF rfl hnext rfl
  have hreach : FsSystem.Reachable (smallExport true) s := ⟨_, ⟨_, rfl⟩, .single trivial hask⟩
  have hraw : s.guest.askedWhole 0 0 = some lookupF := by
    rw [hguest]
    exact lookupF_whole
  have htmp : ¬ s.guest.RemovesTemporary 0 0 lookupF := by
    rintro ⟨-, -, hop, -⟩
    revert hop
    decide +kernel
  have hnames : FsGuest.TmpfilesNamed [[120]] s.guest.dev := by
    rw [hguest]
    intro fh handle path hhandle
    cases hhandle
  have hstill := FsSystem.read_only_request_still hreach hidle hraw (by decide +kernel) hnames
  exact ⟨s, s₁, s₂, _, hreach, hstart, hcall, hstill.mpr htmp s₁ s₁ s₂ _ hstart .refl hcall⟩

/-- TMPFILE in the root, which gets handle 1 and node 2. -/
def makeTmp : Bytes := requestBytes 51 rootId (putU32 2 ++ putU32 0o600 ++ putU32 0 ++ putU32 0)

/-- RELEASE of handle 1. -/
def releaseTmp : Bytes := requestBytes 18 2 (putU64 1 ++ putU32 0 ++ putU32 0)

/-- The name of the tmpfile, `.hvi-tmp-1-1`. -/
def tmpName : Name := VirtioFs.tmpfileName 1 1

/-- The device once the tmpfile was made. -/
def afterTmp : ReadaheadState × Except Errno Unit × FsGuest :=
  oneFile.play {} (asked cleanGuest makeTmp)

theorem releaseTmp_unlinks :
    (asked afterTmp.2.2 releaseTmp).nextOp = some (.unlinkat ⟨3, .root⟩ tmpName false) := by
  decide +kernel

/-- **A RELEASE, which counts as read-only, removes a name from the tree.** -/
theorem release_removes_name :
    ∃ s s₁ s₂, FsSystem.Reachable (smallExport true) s ∧
      s.guest.askedWhole 0 0 = some releaseTmp ∧ VirtioFs.ReadOnly releaseTmp ∧
      FsSystem.Step (.start (.request 0 0)) s s₁ ∧
      FsSystem.Step (.call ⟨.unlinkat ⟨3, .root⟩ tmpName false, (.ok () : Except HostErr Unit)⟩)
        s₁ s₂ := by
  obtain ⟨s₀, hsteps, hidle, hguest₀, -⟩ := FsSystem.ask_steps (s := { guest := cleanGuest })
    oneFile_fair makeTmp 4096 rfl
  have hafter : s₀.guest = afterTmp.2.2 := by rw [hguest₀, afterTmp, asked]
  have hnext : (asked s₀.guest releaseTmp).nextOp = some (.unlinkat ⟨3, .root⟩ tmpName false) := by
    rw [hafter]
    exact releaseTmp_unlinks
  obtain ⟨s, s₁, s₂, hask, hguest, -, hstart, hcall⟩ :=
    FsSystem.ask_first_call oneFile_fair releaseTmp hidle hnext rfl
  have hraw : s.guest.askedWhole 0 0 = some releaseTmp := by
    rw [hguest, hafter]
    decide +kernel
  exact ⟨s, s₁, s₂, ⟨_, ⟨_, rfl⟩, hsteps.trans (.single trivial hask)⟩, hraw, by decide +kernel,
    hstart, hcall⟩
