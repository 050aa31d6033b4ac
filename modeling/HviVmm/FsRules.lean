/-
What the virtio-fs server may ask of the host.

A `Kind` says what a request may do: whether its calls may change the tree, whether it may
deal with the workers that prepare listings or sync the volume.  Whatever the kind, each name in
a call is one component that stays in its directory, and the directory is a descriptor below the
root: `Origin.Contained`.

* `Kind.Permits` — the calls of a kind;
* `Kind.Fair` — what is assumed of the host: a directory lists names, which are not empty and
  hold no `/`;
* one lemma `*_keeps` for each wrapper of a host call, over any state.
-/
import HviVmm.FsServe

open CallPrograms Fuse

/-! ### Containment -/

/-- The descriptor is the export's root, or was opened by a name that stays in its directory
under another such descriptor, with flags that satisfy `ok`; or it duplicates one. -/
inductive Origin.Contained (ok : OpenFlags → Bool) : Origin → Prop
  | root : Contained ok .root
  | opened {dir : Origin} {name : Name} {flags : OpenFlags} (hdir : Contained ok dir)
      (hname : IsComponent name) (hflags : ok flags = true) : Contained ok (.opened dir name flags)
  | dup {of : Origin} (h : Contained ok of) : Contained ok (.dup of)

/-- Flags with which a symlink in the final component is not followed: it is refused, or
opened itself. -/
def OpenFlags.follows (flags : OpenFlags) : Bool := !(flags.nofollow || flags.symlink)

/-- A descriptor no link has led to. -/
def Fd.Inside (fd : Fd) : Prop := fd.origin.Contained fun flags => !flags.follows

theorem Fd.inside_opened {dir : Fd} {name : Name} {flags : OpenFlags} {num : ℕ}
    (hdir : dir.Inside) (hname : IsComponent name) (hflags : flags.follows = false) :
    Fd.Inside ⟨num, .opened dir.origin name flags⟩ :=
  .opened hdir hname (by simp [hflags])

theorem Fd.inside_dup {fd : Fd} {num : ℕ} (h : fd.Inside) : Fd.Inside ⟨num, .dup fd.origin⟩ :=
  .dup h

/-! ### Kinds of requests -/

/-- What a request may do. -/
structure Kind where
  /-- Calls that change the tree. -/
  change : Bool := false
  /-- Requests to the workers and what they prepared. -/
  prepared : Bool := false
  /-- A sync of the volume, after which the export is clean. -/
  sync : Bool := false
  /-- The request has marked the export dirty. -/
  dirtied : Bool := false
  /-- When what the workers prepared, and the request may work with, was begun. -/
  live : ℕ → Prop := fun _ => True
  /-- Handles that are made, and nodes and handles that are let go of. -/
  makes : Bool := true
  /-- A handle that the budget is not asked for. -/
  ungated : Bool := true
  /-- The files that come into the tables. -/
  files : Fd → Prop := fun _ => True

/-- The directory and name pairs of a call, with those a worker is given to open. -/
def HostOp.resolves : HostOp → List (Fd × Name)
  | .raRequest _ parent name => [(parent, name)]
  | op => op.entries

/-- Whether a call asks the workers for something or takes what they did. -/
def HostOp.asksWorkers : HostOp → Bool
  | .raRequest .. | .raTake .. => true
  | _ => false

/-- The calls a request of this kind may make. -/
structure Kind.Permits (k : Kind) (c : HostCall) : Prop where
  inside : ∀ e ∈ c.op.resolves, e.1.Inside ∧ IsComponent e.2
  change : c.op.mutates = true → k.change = true
  prepared : c.op.asksWorkers = true → k.prepared = true
  sync : c.op = .syncVolume → k.sync = true

/-- A call that resolves no name, changes nothing and is neither for the workers nor a sync of
the volume. -/
theorem Kind.permits_plain {k : Kind} {c : HostCall} (hres : c.op.resolves = [])
    (hmut : c.op.mutates = false) (hask : c.op.asksWorkers = false) (hsync : c.op ≠ .syncVolume) :
    k.Permits c where
  inside := by simp [hres]
  change := by simp [hmut]
  prepared := by simp [hask]
  sync := fun h => absurd h hsync

/-- A call that resolves one name and is neither for the workers nor a sync of the volume. -/
theorem Kind.permits_entry {k : Kind} {c : HostCall} {dir : Fd} {name : Name} (hdir : dir.Inside)
    (hname : IsComponent name) (hres : c.op.resolves = [(dir, name)])
    (hmut : c.op.mutates = false) (hask : c.op.asksWorkers = false) (hsync : c.op ≠ .syncVolume) :
    k.Permits c where
  inside := by
    rw [hres]
    intro e he
    rw [List.mem_singleton.mp he]
    exact ⟨hdir, hname⟩
  change := by simp [hmut]
  prepared := by simp [hask]
  sync := fun h => absurd h hsync

/-- What is assumed of an answer.  The records of a directory carry names; so do the listings
the workers prepare, which are made of such records without `.` and `..`.  A file that comes into
the tables is vouched for by `fstat`, by `O_CREAT`, or as a duplicate of one that is. -/
def Kind.Fair (k : Kind) : HostCall → Prop
  | ⟨.readDir _, .ok records⟩ => ∀ r ∈ records, r.name ≠ [] ∧ slash ∉ r.name
  | ⟨.raTake _, some prepared⟩ =>
    (∀ e ∈ prepared.entries, IsComponent e.info.name) ∧ k.live prepared.born
  | ⟨.fstat fd, .ok stat⟩ => stat.isFile = true → k.files fd
  | ⟨.dupfd fd, .ok num⟩ => k.files fd → k.files ⟨num, .dup fd.origin⟩
  | ⟨.openat dir name flags _, .ok num⟩ =>
    flags.creat = true → k.files ⟨num, .opened dir.origin name flags⟩
  | _ => True

/-- The rules are those of the kind, over some state. -/
class Follows {σ : Type} (k : outParam Kind) (ρ : Proc.Rules σ HostOp HostOp.Ans) : Prop where
  fair : ∀ c, ρ.fair c → k.Fair c
  permits : ∀ c, k.Permits c → ρ.permits c

namespace Io

open Proc

/-- The flags the guest's are translated to follow no link. -/
theorem hostOpenFlags_ok {flags : UInt32} {create : Bool} {hostFlags : OpenFlags}
    (h : hostOpenFlags flags create = .ok hostFlags) :
    hostFlags.follows = false ∧ hostFlags.creat = create ∧
      hostFlags.trunc = has flags linuxOTrunc := by
  unfold hostOpenFlags at h
  split at h
  · cases h; exact ⟨rfl, rfl, rfl⟩
  · split at h
    · cases h; exact ⟨rfl, rfl, rfl⟩
    · split at h
      · cases h; exact ⟨rfl, rfl, rfl⟩
      · cases h

section

variable {σ α : Type} {k : Kind} {ρ : Rules σ HostOp HostOp.Ans}
variable {op : HostOp} {dir : Fd} {name : Name}

theorem hostResult_keeps {r : Except HostErr α} {R : α → Prop} (h : ∀ a, r = .ok a → R a) :
    Keeps ρ (hostResult r : Io σ α) R := by
  refine .lift fun a ha => h a ?_
  cases r with
  | ok b => exact congrArg _ (Except.ok.inj ha)
  | error e => cases ha

variable [hfollows : Follows k ρ]
include hfollows

theorem ask_keeps (hop : ∀ x, k.Permits ⟨op, x⟩) :
    Keeps ρ (ask op : Io σ op.Ans) fun x => k.Fair ⟨op, x⟩ :=
  .ask fun x hx => ⟨Follows.permits _ (hop x), Follows.fair _ hx⟩

/-- A call that resolves no name, changes nothing and is neither for the workers nor a sync of
the volume. -/
theorem askPlain_keeps (op : HostOp) (hres : op.resolves = [])
    (hmut : op.mutates = false) (hask : op.asksWorkers = false) (hsync : op ≠ .syncVolume) :
    Keeps ρ (ask op : Io σ op.Ans) fun x => k.Fair ⟨op, x⟩ :=
  ask_keeps fun _ => Kind.permits_plain hres hmut hask hsync

/-- A call whose failure is reported, with what a success is known to satisfy. -/
theorem askResult_keeps {f : op.Ans → Except HostErr α} {R : α → Prop}
    (hop : ∀ x, k.Permits ⟨op, x⟩) (hR : ∀ x a, k.Fair ⟨op, x⟩ → f x = .ok a → R a) :
    Keeps ρ (ask op >>= fun x => hostResult (f x) : Io σ α) R :=
  .bind (ask_keeps hop) fun x hx => hostResult_keeps fun a ha => hR x a hx ha

/-! ### Opening -/

/-- A call that makes a descriptor, its failure reported. -/
theorem askFd_keeps {f : op.Ans → Except HostErr ℕ} {origin : Origin} {R : Fd → Prop}
    (hop : ∀ x, k.Permits ⟨op, x⟩)
      (hR : ∀ x num, k.Fair ⟨op, x⟩ → f x = .ok num → R ⟨num, origin⟩) :
    Keeps ρ (do pure ⟨← hostResult (f (← ask op)), origin⟩ : Io σ Fd) R := by
  refine .bind (ask_keeps hop) fun x hx => ?_
  exact .bind (hostResult_keeps fun num hnum => hR x num hx hnum) fun num hnum => .pure hnum

theorem openDirNofollowAt_keeps (hdir : dir.Inside) (hname : IsComponent name) :
    Keeps ρ (openDirNofollowAt dir name : Io σ Fd) Fd.Inside := by
  refine .bind (.lift fun c hc => cstring_ok hc) fun c hc => ?_
  subst hc
  exact askFd_keeps (fun x => Kind.permits_entry hdir hname rfl rfl rfl nofun)
    fun _ _ _ _ => Fd.inside_opened hdir hname rfl

theorem openEntryNofollow_keeps (hdir : dir.Inside) (hname : IsComponent name) :
    Keeps ρ (openEntryNofollow dir name : Io σ Fd) Fd.Inside := by
  refine .bind (ask_keeps fun x => Kind.permits_entry hdir hname rfl rfl rfl nofun) fun r _ => ?_
  split
  · exact .pure (Fd.inside_opened hdir hname rfl)
  · -- a symlink is opened itself
    exact askFd_keeps (fun x => Kind.permits_entry hdir hname rfl rfl rfl nofun)
      fun _ _ _ _ => Fd.inside_opened hdir hname rfl
  · exact .throw _

/-- With `create`, the file may come into the tables. -/
theorem openHostFileAt_keeps {flags mode : UInt32} {create : Bool} (hdir : dir.Inside)
    (hname : IsComponent name)
    (hchange : create = true ∨ has flags linuxOTrunc = true → k.change = true) :
    Keeps ρ (openHostFileAt dir name flags create mode : Io σ Fd) fun fd =>
      create = true → k.files fd := by
  refine .bind (.lift fun c hc => hostOpenFlags_ok hc) fun hostFlags hflags => ?_
  obtain ⟨-, hcreat, htrunc⟩ := hflags
  refine askFd_keeps (fun x => ?_) fun x num hx hnum hcreate => ?_
  · refine ⟨by simpa [HostOp.resolves, HostOp.entries] using ⟨hdir, hname⟩, ?_, nofun, nofun⟩
    intro hmut
    refine hchange ?_
    simpa [HostOp.mutates, hcreat, htrunc] using hmut
  · subst hnum
    exact hx (hcreat.trans hcreate)

theorem dupCloexec_keeps (fd : Fd) : Keeps ρ (dupCloexec fd : Io σ Fd) fun fd' =>
      (fd.Inside → fd'.Inside) ∧ (k.files fd → k.files fd') := by
  refine askFd_keeps (fun x => Kind.permits_plain rfl rfl rfl nofun) fun x num hx hnum => ?_
  subst hnum
  exact ⟨Fd.inside_dup, hx⟩

/-! ### Looking -/

theorem statAt_keeps (hdir : dir.Inside) (hname : IsComponent name) :
    Keeps ρ (statAt dir name : Io σ Stat) fun _ => True :=
  askResult_keeps (fun _ => Kind.permits_entry hdir hname rfl rfl rfl nofun) fun _ _ _ _ => trivial

theorem existsAt_keeps (hdir : dir.Inside) (hname : IsComponent name) :
    Keeps ρ (existsAt dir name : Io σ Unit) fun _ => True :=
  askResult_keeps (fun _ => Kind.permits_entry hdir hname rfl rfl rfl nofun) fun _ _ _ _ => trivial

/-- What is called a regular file may come into the tables. -/
theorem statOfFd_files (fd : Fd) :
    Keeps ρ (statOfFd fd : Io σ Stat) fun stat => stat.isFile = true → k.files fd := by
  refine askResult_keeps (fun _ => Kind.permits_plain rfl rfl rfl nofun) fun x stat hx hstat => ?_
  subst hstat
  exact hx

theorem statOfFd_keeps (fd : Fd) : Keeps ρ (statOfFd fd : Io σ Stat) fun _ => True :=
  (statOfFd_files fd).weaken fun _ _ => trivial

theorem openFailureErrnoAt_keeps (err : Errno) (hdir : dir.Inside) (hname : IsComponent name) :
    Keeps ρ (openFailureErrnoAt dir name err : Io σ Errno) fun _ => True := by
  refine .bind (statAt_keeps hdir hname).attempt fun r _ => ?_
  split
  · split
    · exact .pure trivial
    · split
      · exact .pure trivial
      · exact .pure trivial
  · exact .pure trivial

theorem readLinkFrom_keeps (hdir : dir.Inside) (hname : IsComponent name) (tries size : ℕ) :
    Keeps ρ (readLinkFrom dir name tries size : Io σ Bytes) fun _ => True := by
  induction tries generalizing size with
  | zero => exact .throw _
  | succ tries ih =>
    refine .bind (ask_keeps fun x => Kind.permits_entry hdir hname rfl rfl rfl nofun) fun r _ => ?_
    refine .bind (hostResult_keeps fun _ _ => trivial) fun target _ => ?_
    split
    · exact .pure trivial
    · exact ih (size * 2)

theorem readLinkAt_keeps (hdir : dir.Inside) (hname : IsComponent name) :
    Keeps ρ (readLinkAt dir name : Io σ Bytes) fun _ => True :=
  readLinkFrom_keeps hdir hname 9 256

/-- What a directory lists, without `.` and `..`, are names that stay in it. -/
theorem readDirAt_keeps (fd : Fd) : Keeps ρ (readDirAt fd : Io σ (List DirEntryInfo)) fun entries =>
      ∀ e ∈ entries, IsComponent e.name := by
  refine .bind (ask_keeps fun x => Kind.permits_plain rfl rfl rfl nofun) fun r hr => ?_
  have hnames : Keeps ρ (hostResult r : Io σ (List Dirent)) fun records =>
      ∀ record ∈ records, record.name ≠ [] ∧ slash ∉ record.name := by
    refine hostResult_keeps fun records hok => ?_
    subst hok
    exact hr
  refine .bind hnames fun records hrecords => .pure ?_
  intro e he
  obtain ⟨record, hmem, rfl⟩ := List.mem_map.mp he
  obtain ⟨hlisted, hdots⟩ := List.mem_filter.mp hmem
  obtain ⟨hdot, hdotdot⟩ := of_decide_eq_true hdots
  obtain ⟨hne, hslash⟩ := hrecords record hlisted
  exact ⟨hne, hslash, hdot, hdotdot⟩

/-! ### Changing -/

/-- A call that may change the entries it resolves, its failure reported. -/
theorem change_keeps (hk : k.change = true) {f : op.Ans → Except HostErr α}
    (hres : ∀ e ∈ op.resolves, e.1.Inside ∧ IsComponent e.2) (hask : op.asksWorkers = false)
    (hsync : op ≠ .syncVolume) :
    Keeps ρ (ask op >>= fun x => hostResult (f x) : Io σ α) fun _ => True :=
  askResult_keeps (fun _ => ⟨hres, fun _ => hk, by simp [hask], fun e => absurd e hsync⟩)
    fun _ _ _ _ => trivial

/-- A call that changes an entry. -/
theorem changeEntry_keeps (hk : k.change = true) {f : op.Ans → Except HostErr α} (hdir : dir.Inside)
    (hname : IsComponent name) (hres : op.resolves = [(dir, name)]) (hask : op.asksWorkers = false)
    (hsync : op ≠ .syncVolume) :
    Keeps ρ (ask op >>= fun x => hostResult (f x) : Io σ α) fun _ => True := by
  refine change_keeps hk (fun e he => ?_) hask hsync
  rw [hres, List.mem_singleton] at he
  rw [he]
  exact ⟨hdir, hname⟩

/-- A call that changes two entries. -/
theorem changeEntries_keeps (hk : k.change = true) {oldDir newDir : Fd} {old new : Name}
    {f : op.Ans → Except HostErr α} (hold : oldDir.Inside) (holdName : IsComponent old)
    (hnew : newDir.Inside) (hnewName : IsComponent new)
    (hres : op.resolves = [(oldDir, old), (newDir, new)]) (hask : op.asksWorkers = false)
    (hsync : op ≠ .syncVolume) :
    Keeps ρ (ask op >>= fun x => hostResult (f x) : Io σ α) fun _ => True := by
  refine change_keeps hk (fun e he => ?_) hask hsync
  rw [hres, List.mem_pair] at he
  rcases he with rfl | rfl
  · exact ⟨hold, holdName⟩
  · exact ⟨hnew, hnewName⟩

/-- A call on an open file that may change it. -/
theorem changeFile_keeps (hk : k.change = true) {f : op.Ans → Except HostErr α}
    (hres : op.resolves = []) (hask : op.asksWorkers = false) (hsync : op ≠ .syncVolume) :
    Keeps ρ (ask op >>= fun x => hostResult (f x) : Io σ α) fun _ => True :=
  change_keeps hk (by simp [hres]) hask hsync

/-- A call on an open file that leaves it as it is, its failure reported. -/
theorem lookFile_keeps {f : op.Ans → Except HostErr α} (hres : op.resolves = [])
    (hmut : op.mutates = false) (hask : op.asksWorkers = false) (hsync : op ≠ .syncVolume) :
    Keeps ρ (ask op >>= fun x => hostResult (f x) : Io σ α) fun _ => True :=
  askResult_keeps (fun _ => Kind.permits_plain hres hmut hask hsync) fun _ _ _ _ => trivial

section

variable {dir newDir fd : Fd} {name new : Name}

theorem mkdirAt_keeps (hk : k.change = true) (hdir : dir.Inside)
    (hname : IsComponent name) (mode : UInt32) :
    Keeps ρ (mkdirAt dir name mode : Io σ Unit) fun _ => True :=
  changeEntry_keeps hk hdir hname rfl rfl nofun

theorem mkfifoAt_keeps (hk : k.change = true) (hdir : dir.Inside)
    (hname : IsComponent name) (mode : UInt32) :
    Keeps ρ (mkfifoAt dir name mode : Io σ Unit) fun _ => True :=
  changeEntry_keeps hk hdir hname rfl rfl nofun

theorem symlinkAt_keeps (hk : k.change = true) (target : Bytes)
    (hdir : dir.Inside) (hname : IsComponent name) :
    Keeps ρ (symlinkAt target dir name : Io σ Unit) fun _ => True :=
  .bind (.lift fun _ _ => trivial) fun _ _ => changeEntry_keeps hk hdir hname rfl rfl nofun

theorem unlinkAt_keeps (hk : k.change = true) (hdir : dir.Inside)
    (hname : IsComponent name) (directory : Bool) :
    Keeps ρ (unlinkAt dir name directory : Io σ Unit) fun _ => True :=
  changeEntry_keeps hk hdir hname rfl rfl nofun

theorem chmodAt_keeps (hk : k.change = true) (hdir : dir.Inside)
    (hname : IsComponent name) (mode : UInt32) :
    Keeps ρ (chmodAt dir name mode : Io σ Unit) fun _ => True :=
  changeEntry_keeps hk hdir hname rfl rfl nofun

theorem hostLutimensAt_keeps (hk : k.change = true) (hdir : dir.Inside)
    (hname : IsComponent name) (times : TimeSpec × TimeSpec) :
    Keeps ρ (hostLutimensAt dir name times : Io σ Unit) fun _ => True :=
  changeEntry_keeps hk hdir hname rfl rfl nofun

theorem hostLink_keeps (hk : k.change = true) (hdir : dir.Inside)
    (hname : IsComponent name) (hnewDir : newDir.Inside) (hnew : IsComponent new) :
    Keeps ρ (hostLink dir name newDir new : Io σ Unit) fun _ => True :=
  changeEntries_keeps hk hdir hname hnewDir hnew rfl rfl nofun

theorem hostRename_keeps (hk : k.change = true) (hdir : dir.Inside)
    (hname : IsComponent name) (hnewDir : newDir.Inside) (hnew : IsComponent new) (flags : UInt32) :
    Keeps ρ (hostRename dir name newDir new flags : Io σ Unit) fun _ => True := by
  unfold hostRename
  split
  · exact changeEntries_keeps hk hdir hname hnewDir hnew rfl rfl nofun
  · exact changeEntries_keeps hk hdir hname hnewDir hnew rfl rfl nofun

theorem setLen_keeps (hk : k.change = true) (fd : Fd) (size : UInt64) :
    Keeps ρ (setLen fd size : Io σ Unit) fun _ => True :=
  changeFile_keeps hk rfl rfl nofun

theorem setPermissions_keeps (hk : k.change = true) (fd : Fd) (mode : UInt32) :
    Keeps ρ (setPermissions fd mode : Io σ Unit) fun _ => True :=
  changeFile_keeps hk rfl rfl nofun

theorem hostFutimens_keeps (hk : k.change = true) (fd : Fd)
    (times : TimeSpec × TimeSpec) : Keeps ρ (hostFutimens fd times : Io σ Unit) fun _ => True :=
  changeFile_keeps hk rfl rfl nofun

theorem readAt_keeps (fd : Fd) (len : ℕ) (offset : UInt64) :
    Keeps ρ (readAt fd len offset : Io σ Bytes) fun _ => True :=
  lookFile_keeps rfl rfl rfl nofun

theorem writeAt_keeps (hk : k.change = true) (fd : Fd) (data : Bytes)
    (offset : UInt64) : Keeps ρ (writeAt fd data offset : Io σ ℕ) fun _ => True :=
  changeFile_keeps hk rfl rfl nofun

theorem syncFile_keeps (fd : Fd) (flags : UInt32) :
    Keeps ρ (syncFile fd flags : Io σ Unit) fun _ => True := by
  unfold syncFile
  split
  · exact lookFile_keeps rfl rfl rfl nofun
  · exact lookFile_keeps rfl rfl rfl nofun

/-! ### Extended attributes and locks -/

theorem fdGetxattr_keeps (fd : Fd) (name : Name) :
    Keeps ρ (fdGetxattr fd name : Io σ Bytes) fun _ => True := by
  refine .bind (.lift fun _ _ => trivial) fun _ _ => ?_
  refine .bind (ask_keeps fun x => Kind.permits_plain rfl rfl rfl nofun) fun _ _ => ?_
  refine .bind (hostResult_keeps fun _ _ => trivial) fun _ _ => ?_
  exact lookFile_keeps rfl rfl rfl nofun

theorem fdSetxattr_keeps (hk : k.change = true) (fd : Fd) (name : Name)
    (value : Bytes) (flags : UInt32) :
    Keeps ρ (fdSetxattr fd name value flags : Io σ Unit) fun _ => True :=
  .bind (.lift fun _ _ => trivial) fun _ _ => changeFile_keeps hk rfl rfl nofun

theorem fdListxattr_keeps (fd : Fd) : Keeps ρ (fdListxattr fd : Io σ Bytes) fun _ => True := by
  refine .bind (ask_keeps fun x => Kind.permits_plain rfl rfl rfl nofun) fun _ _ => ?_
  refine .bind (hostResult_keeps fun _ _ => trivial) fun _ _ => ?_
  exact lookFile_keeps rfl rfl rfl nofun

theorem fdRemovexattr_keeps (hk : k.change = true) (fd : Fd) (name : Name) :
    Keeps ρ (fdRemovexattr fd name : Io σ Unit) fun _ => True :=
  .bind (.lift fun _ _ => trivial) fun _ _ => changeFile_keeps hk rfl rfl nofun

theorem setGuestAttr_keeps (hk : k.change = true) (fd : Fd) (guest : GuestAttr) :
    Keeps ρ (setGuestAttr fd guest : Io σ Unit) fun _ => True :=
  fdSetxattr_keeps hk fd _ _ _

theorem storedGuestAttr_keeps (fd : Fd) :
    Keeps ρ (storedGuestAttr fd : Io σ (Option GuestAttr)) fun _ => True := by
  refine .bind (ask_keeps fun x => Kind.permits_plain rfl rfl rfl nofun) fun r _ => ?_
  split
  · exact .pure trivial
  · exact .pure trivial

theorem tryLock_keeps (fd : Fd) (call : LockCall) :
    Keeps ρ (tryLock fd call : Io σ (Except (Option Errno) Unit)) fun _ => True := by
  cases call with
  | flock operation =>
    refine .bind (ask_keeps fun x => Kind.permits_plain rfl rfl rfl nofun) fun r _ => ?_
    split <;> exact .pure trivial
  | posix lock =>
    refine .bind (ask_keeps fun x => Kind.permits_plain rfl rfl rfl nofun) fun r _ => ?_
    split <;> exact .pure trivial

end

end

end Io
