/-
The files the guest holds in virtio-fs.

A descriptor enters the handles by an OPEN, by taking back one that was parked, by duplicating one
the guest holds of an unlinked file, by CREATE and by TMPFILE.  An OPEN looks at the type of what
the host has opened; CREATE does not, and without `O_EXCL` it opens whatever has the name.

`regular` is any predicate on descriptors that the host's answers vouch for (`Vouches`): a
descriptor `fstat` has called a regular file satisfies it, a duplicate of one that does, and one
that `openat` has made a file for.  A descriptor stands for what it was opened as for good.

* `FsSystem.holds_regular_files` — in a run in which no `O_CREAT` opens anything but a regular file,
  every descriptor in `handles` and `parked` is of one;
* `create_opens_fifo` — CREATE of a name that a FIFO has puts the FIFO into `handles`.
-/
import HviVmm.FsHandles

open CallPrograms Fuse LabelledSteps Relation

/-- What the host's answers say of the type of a descriptor. -/
def Vouches (regular : Fd → Prop) : HostCall → Prop
  | ⟨.fstat fd, .ok stat⟩ => stat.isFile = true → regular fd
  | ⟨.dupfd fd, .ok num⟩ => regular fd → regular ⟨num, .dup fd.origin⟩
  | ⟨.openat dir name flags _, .ok num⟩ =>
    flags.creat = true → flags.excl = true → regular ⟨num, .opened dir.origin name flags⟩
  | _ => True

/-- What `O_CREAT` finds under the name, where it may find something, is a regular file. -/
def CreatesOverRegular (regular : Fd → Prop) : HostCall → Prop
  | ⟨.openat dir name flags _, .ok num⟩ =>
    flags.creat = true → flags.excl = false → regular ⟨num, .opened dir.origin name flags⟩
  | _ => True

/-- What the host vouches for, a kind may assume of the files that come into the tables. -/
theorem fair_of_vouches {writable ungated : Bool} {regular : Fd → Prop} {live : ℕ → Prop}
    {c : HostCall} (h : (Kind.any writable live).Fair c) (hvouches : Vouches regular c)
    (hcreates : CreatesOverRegular regular c) :
      (Kind.tables writable ungated regular live).Fair c := by
  unfold Kind.Fair at h ⊢
  split at h
  · exact h
  · exact h
  · exact hvouches
  · exact hvouches
  · next flags mode num =>
    intro hcreat
    cases hexcl : flags.excl with
    | true => exact hvouches hcreat hexcl
    | false => exact hcreates hcreat hexcl
  · trivial

/-! ### Runs -/

namespace FsSystem

/-- **The guest holds regular files only**: in every run of the device in which no `O_CREAT` finds
anything but a regular file under its name, each descriptor in `handles` and `parked` is of one. -/
theorem holds_regular_files {root : PathBuf} {rootStat : Stat} {rootFd : ℕ} {writable : Bool}
    {cachePolicy : CachePolicy} {ids : GuestIds} {process : HostProcess} {handleLimit dirLimit : ℕ}
    {s : FsSystem} {regular : Fd → Prop}
    (h : ReachableUnder (fun _ _ => True) (fun c => Vouches regular c ∧
      CreatesOverRegular regular c)
      (VirtioFs.new root rootStat rootFd writable cachePolicy ids process handleLimit dirLimit) s) :
    (∀ fh handle, s.guest.dev.handles.lookup fh = some handle → regular handle.file) ∧
      ∀ node parked, s.guest.dev.parked.lookup node = some parked → regular parked.file := by
  have hkept : Kept root writable (fun _ _ => True)
      (fun c => Vouches regular c ∧ CreatesOverRegular regular c) fun g => g.dev.Holds regular :=
    kept_of_steps (k := .tables writable true regular) (fun _ => rfl)
      (fun _ _ hc => fair_of_vouches hc.1 hc.2.1 hc.2.2)
      (fun _ s hs hholds => ⟨hs, Bool.noConfusion, hholds⟩)
      (fun _ _ _ hg _ _ => FsOp.ofKind_tables hg Bool.noConfusion)
        (fun _ _ _ hs => ⟨hs.handles, hs.parked⟩)
      fun _ s s' hgood hstep _ => (hstep.good_rules hgood).2.2
  have hinit : (VirtioFs.new root rootStat rootFd writable cachePolicy ids process handleLimit
      dirLimit).Holds regular := ⟨HashMap.All.empty, HashMap.All.empty⟩
  have hs := hkept.reachable (fun live => new_good root rootStat rootFd writable cachePolicy ids
    process handleLimit dirLimit live) (fun _ => hinit) h
  exact ⟨hs.handles, hs.parked⟩

end FsSystem

/-! ### CREATE of a name that exists -/

theorem vouches_of_all {regular : Fd → Prop} (h : ∀ fd, regular fd) (c : HostCall) :
    Vouches regular c ∧ CreatesOverRegular regular c := by
  constructor
  · unfold Vouches
    split
    · exact fun _ => h _
    · exact fun _ => h _
    · exact fun _ _ => h _
    · trivial
  · unfold CreatesOverRegular
    split
    · exact fun _ _ => h _
    · trivial

/-- What a host that answers by a rule calls a regular file. -/
def HostRule.IsFile (host : HostRule) (fd : Fd) : Prop :=
  ∃ stat, host (.fstat fd) = .ok stat ∧ stat.isFile = true

/-- CREATE of `f`, which is a regular file, makes a handle of it. -/
theorem holds_regular_files_create :
    ∃ s, FsSystem.ReachableUnder (fun _ _ => True)
        (fun c => Vouches oneFile.IsFile c ∧ CreatesOverRegular oneFile.IsFile c)
        (smallExport true) s ∧
      (s.guest.dev.handles.lookup 1).isSome = true ∧
      ∀ fh handle, s.guest.dev.handles.lookup fh = some handle → oneFile.IsFile handle.file := by
  have hregular : ∀ fd, oneFile.IsFile fd := fun fd => ⟨_, rfl, by decide⟩
  have hinit : FsSystem.ReachableUnder (fun _ _ => True)
      (fun c => Vouches oneFile.IsFile c ∧ CreatesOverRegular oneFile.IsFile c) (smallExport true)
      { guest := cleanGuest } := ⟨_, ⟨_, rfl⟩, .refl _⟩
  obtain ⟨s, hreach, -, hguest, -⟩ := hinit.ask oneFile_fair
    (fun _ _ => vouches_of_all hregular _) createF 4096 trivial rfl
  refine ⟨s, hreach, ?_, (FsSystem.holds_regular_files hreach).1⟩
  rw [hguest]
  decide +kernel

/-- The root holds a FIFO, `f`. -/
def fifoInRoot : HostRule
  | .fstatat .. => .ok { dev := 1, ino := 3, mode := sIfifo ||| 0o644 }
  | .fstat _ => .ok { dev := 1, ino := 3, mode := sIfifo ||| 0o644 }
  | .openat _ _ flags _ => if flags.excl then .error .eexist else .ok 9
  | op => smallTree op

theorem fifoInRoot_fair : fifoInRoot.Fair :=
  HostRule.fair_of_readDir fun fd => smallTree_fair (.readDir fd)

theorem fifoInRoot_not_isFile (fd : Fd) : ¬fifoInRoot.IsFile fd := by
  rintro ⟨stat, hstat, hfile⟩
  obtain rfl := Except.ok.inj hstat
  revert hfile
  decide

theorem fifoInRoot_vouches (s : ReadaheadState) (op : HostOp) :
    Vouches fifoInRoot.IsFile ⟨op, (fifoInRoot.answer s op).1⟩ := by
  cases op with
  | fstat fd => exact fun hfile => ⟨_, rfl, hfile⟩
  | dupfd fd => exact fun hfile => absurd hfile (fifoInRoot_not_isFile fd)
  | openat dir name flags mode =>
    show Vouches fifoInRoot.IsFile ⟨.openat dir name flags mode,
      (if flags.excl then .error .eexist else .ok 9 : Except HostErr ℕ)⟩
    split
    · trivial
    · next hexcl => exact fun _ h => absurd h hexcl
  | _ => trivial

/-- **A FIFO in the handles**: CREATE without `O_EXCL` of a name that a FIFO has opens the FIFO. -/
theorem create_opens_fifo :
    ∃ s handle, FsSystem.ReachableUnder (fun _ _ => True) (Vouches fifoInRoot.IsFile)
        (smallExport true) s ∧
      s.guest.dev.handles.lookup 1 = some handle ∧
      fifoInRoot (.fstat handle.file) = .ok { dev := 1, ino := 3, mode := sIfifo ||| 0o644 } ∧
      ¬fifoInRoot.IsFile handle.file := by
  have hinit : FsSystem.ReachableUnder (fun _ _ => True) (Vouches fifoInRoot.IsFile)
      (smallExport true) { guest := cleanGuest } := ⟨_, ⟨_, rfl⟩, .refl _⟩
  obtain ⟨s, hreach, -, hguest, -⟩ := hinit.ask fifoInRoot_fair fifoInRoot_vouches
    createF 4096 trivial rfl
  have hsome : (s.guest.dev.handles.lookup 1).isSome = true := by
    rw [hguest]
    decide +kernel
  obtain ⟨handle, hhandle⟩ := Option.isSome_iff_exists.mp hsome
  exact ⟨s, handle, hreach, hhandle, rfl, fifoInRoot_not_isFile handle.file⟩
