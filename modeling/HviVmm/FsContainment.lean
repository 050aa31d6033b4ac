/-
The virtio-fs server stays inside its export.

* `walk_expansions` — the walk comes to an end, and follows at most 40 symlinks on the way;
* `call_contained` — every name in a host call, of the server or of a readahead worker, is one
  component that stays in its directory, and the directory is a descriptor that is the
  export's root or was opened below it without following a link.  A worker may open a
  directory with `O_SYMLINK` rather than `O_NOFOLLOW` (`worker_opens_without_nofollow`);
* `tables_inside` — what the device remembers is inside the export;
* `readOnly_unchanged` — no call changes the tree of an export that is not writable.
-/
import HviVmm.FsPlay

open CallPrograms Fuse LabelledSteps
open scoped QueueIndex

/-! ### The walk -/

/-- The call reads a symlink whole, which the walk then goes along. -/
def HostCall.expands : HostCall → Bool
  | ⟨.readlinkat _ _ size, .ok target⟩ => decide (target.length < size)
  | _ => false

/-- How many symlinks a run has read. -/
def expansions (tr : List HostCall) : ℕ := tr.countP HostCall.expands

@[simp] theorem expansions_append (tr₁ tr₂ : List HostCall) :
    expansions (tr₁ ++ tr₂) = expansions tr₁ + expansions tr₂ := List.countP_append

namespace DirCache

open Proc

variable {σ α : Type}
variable {n : ℕ}

/-- No symlink is read. -/
def ReadsNoLink (m : Io σ α) : Prop := ∀ s tr r, Runs (m s) tr r → expansions tr = 0

/-- At most `n` symlinks are read, and the `n`th is refused. -/
def ReadsLinks (n : ℕ) (m : Io σ α) : Prop :=
  ∀ s tr r, Runs (m s) tr r → expansions tr ≤ n ∧ (expansions tr = n → r.1 = .error .eloop)

theorem ReadsNoLink.bind {β : Type} {m : Io σ α} {f : α → Io σ β} (hm : ReadsNoLink m)
    (hf : ∀ a, ReadsNoLink (f a)) : ReadsNoLink (m >>= f) := by
  rintro s tr ⟨r, s'⟩ h
  rcases Proc.runs_bind.mp h with ⟨e, rfl, h₁⟩ | ⟨tr₁, tr₂, a, s₁, rfl, h₁, h₂⟩
  · exact hm _ _ _ h₁
  · rw [expansions_append, hm _ _ _ h₁, hf a _ _ _ h₂]

theorem ReadsLinks.bind {β : Type} {m : Io σ α} {f : α → Io σ β} (hm : ReadsNoLink m)
    (hf : ∀ a, ReadsLinks (n + 1) (f a)) : ReadsLinks (n + 1) (m >>= f) := by
  rintro s tr ⟨r, s'⟩ h
  rcases Proc.runs_bind.mp h with ⟨e, rfl, h₁⟩ | ⟨tr₁, tr₂, a, s₁, rfl, h₁, h₂⟩
  · rw [hm _ _ _ h₁]
    exact ⟨Nat.zero_le _, nofun⟩
  · rw [expansions_append, hm _ _ _ h₁, Nat.zero_add]
    exact hf a _ _ _ h₂

theorem readsLinks_of_none {m : Io σ α} (hm : ReadsNoLink m) : ReadsLinks (n + 1) m := by
  intro s tr r h
  rw [hm _ _ _ h]
  exact ⟨Nat.zero_le _, nofun⟩

theorem readsNoLink_pure (a : α) : ReadsNoLink (pure a : Io σ α) := by
  rintro s tr ⟨r, s'⟩ h
  obtain ⟨rfl, -, -⟩ := Proc.runs_pure.mp h
  rfl

theorem readsNoLink_throw (e : Errno) : ReadsNoLink (Proc.throw e : Io σ α) := by
  rintro s tr ⟨r, s'⟩ h
  obtain ⟨rfl, -, -⟩ := Proc.runs_throw.mp h
  rfl

theorem readsNoLink_lift (x : Except Errno α) : ReadsNoLink (Proc.lift x : Io σ α) := by
  cases x with
  | ok a => exact readsNoLink_pure a
  | error e => exact readsNoLink_throw e

theorem readsNoLink_orThrow (o : Option α) (e : Errno) :
    ReadsNoLink (Proc.orThrow o e : Io σ α) := by
  cases o with
  | some a => exact readsNoLink_pure a
  | none => exact readsNoLink_throw e

theorem ReadsNoLink.attempt {m : Io σ α} (h : ReadsNoLink m) : ReadsNoLink m.attempt := by
  rintro s tr ⟨r, s'⟩ hruns
  obtain ⟨r', -, hr'⟩ := Proc.runs_attempt.mp hruns
  exact h _ _ _ hr'

theorem openDirNofollowAt_readsNoLink (dir : Fd) (name : Name) :
    ReadsNoLink (Io.openDirNofollowAt dir name : Io σ Fd) := by
  refine (readsNoLink_lift _).bind fun name => .bind ?_ fun r => ?_
  · rintro s tr ⟨r, s'⟩ h
    obtain ⟨x, rfl, -, -⟩ := Proc.runs_ask.mp h
    rfl
  · exact (readsNoLink_lift _).bind fun num => readsNoLink_pure _

theorem openResolvedFrom_readsNoLink (root : Fd) (current : Option Fd) (names : List Name) :
    ReadsNoLink (openResolvedFrom root current names : Io σ (Option Fd)) := by
  induction names generalizing current with
  | nil => exact readsNoLink_pure _
  | cons name names ih => exact (openDirNofollowAt_readsNoLink _ _).bind fun fd => ih _

/-- Reading a symlink takes several calls, of which the last may succeed. -/
theorem readLinkFrom_reads (dir : Fd) (name : Name) (tries size : ℕ) {s s' : σ}
    {tr : List HostCall} {r : Except Errno Bytes}
    (h : Runs (Io.readLinkFrom dir name tries size s) tr (r, s')) :
    expansions tr ≤ 1 ∧ ((∃ e, r = .error e) → expansions tr = 0) := by
  induction tries generalizing size tr with
  | zero =>
    obtain ⟨rfl, -, -⟩ := Proc.runs_throw.mp h
    exact ⟨Nat.zero_le _, fun _ => rfl⟩
  | succ tries ih =>
    rw [Io.readLinkFrom] at h
    rcases Proc.runs_bind.mp h with ⟨e, rfl, h₁⟩ | ⟨tr₁, tr₂, x, s₁, rfl, h₁, h₂⟩
    · obtain ⟨x, -, hx, -⟩ := Proc.runs_ask.mp h₁
      cases hx
    obtain ⟨x', rfl, hx, rfl⟩ := Proc.runs_ask.mp h₁
    obtain rfl := Except.ok.inj hx
    rw [expansions_append]
    cases x with
    | error err =>
      change Runs (.ret (Except.error (ioErrno err), s₁)) tr₂ (r, s') at h₂
      obtain ⟨rfl, -⟩ := runs_ret.mp h₂
      exact ⟨Nat.zero_le _, fun _ => rfl⟩
    | ok target =>
      change Runs ((if target.length < size then pure target
        else Io.readLinkFrom dir name tries (size * 2) : Io σ Bytes) s₁) tr₂ (r, s') at h₂
      by_cases hlt : target.length < size
      · -- the target is whole
        rw [if_pos hlt] at h₂
        obtain ⟨rfl, rfl, -⟩ := Proc.runs_pure.mp h₂
        refine ⟨?_, by rintro ⟨e, he⟩; cases he⟩
        simp [expansions, HostCall.expands, hlt]
      · rw [if_neg hlt] at h₂
        have hfirst : expansions [⟨.readlinkat dir name size, .ok target⟩] = 0 := by
          simp [expansions, HostCall.expands, hlt]
        rw [hfirst, Nat.zero_add]
        exact ih _ h₂

/-- One more symlink can be read than by what goes on after one. -/
theorem walkAlong_readsLinks (root : Fd) {expand : List Name → List Name → Io σ Fd}
    (hexpand : ∀ pending resolved, ReadsLinks n (expand pending resolved))
    (pending resolved : List Name) :
    ReadsLinks (n + 1) (walkAlong root expand pending resolved) := by
  induction pending generalizing resolved with
  | nil =>
    refine readsLinks_of_none ?_
    exact (openResolvedFrom_readsNoLink root none resolved).bind fun fd => readsNoLink_orThrow _ _
  | cons name pending ih =>
    unfold walkAlong
    split
    · exact ih resolved
    · split
      · exact ih resolved.dropLast
      · refine .bind (openResolvedFrom_readsNoLink root none resolved) fun fd => ?_
        refine .bind (openDirNofollowAt_readsNoLink _ _).attempt fun opened => ?_
        split
        · exact ih (resolved ++ [name])
        · next err =>
          split
          · refine .bind (readsNoLink_lift _) fun cName => ?_
            rintro s tr ⟨r, s'⟩ h
            rcases Proc.runs_bind.mp h with ⟨e, rfl, h₁⟩ | ⟨tr₁, tr₂, target, s₁, rfl, h₁, h₂⟩
            · obtain ⟨r', hr', -⟩ := Proc.runs_attempt.mp h₁
              cases hr'
            obtain ⟨r', hr', hread⟩ := Proc.runs_attempt.mp h₁
            obtain rfl := Except.ok.inj hr'
            obtain ⟨hone, hnone⟩ := readLinkFrom_reads _ _ _ _ hread
            rw [expansions_append]
            cases target with
            | error e =>
              rw [hnone ⟨e, rfl⟩]
              obtain ⟨rfl, -, -⟩ := Proc.runs_throw.mp h₂
              exact ⟨Nat.zero_le _, nofun⟩
            | ok target =>
              obtain ⟨hle, heq⟩ := hexpand _ _ _ _ _ h₂
              exact ⟨by omega, fun h => heq (by omega)⟩
          · exact readsLinks_of_none (readsNoLink_throw err)

theorem walkFrom_readsLinks (root : Fd) (left : ℕ) (pending resolved : List Name) :
    ReadsLinks (left + 1) (walkFrom root left pending resolved : Io σ Fd) := by
  induction left generalizing pending resolved with
  | zero =>
    refine walkAlong_readsLinks root (fun pending resolved => ?_) pending resolved
    rintro s tr ⟨r, s'⟩ h
    obtain ⟨rfl, rfl, -⟩ := Proc.runs_throw.mp h
    exact ⟨le_rfl, fun _ => rfl⟩
  | succ left ih => exact walkAlong_readsLinks root ih pending resolved

/-- **The walk follows at most 40 symlinks**: it reads a further one and gives up. -/
theorem walk_expansions (root : Fd) (relative : PathBuf) :
    ReadsLinks (maxExpansions + 1) (walk root relative : Io σ Fd) := by
  unfold walk
  split
  · exact readsLinks_of_none (readsNoLink_throw _)
  · exact walkFrom_readsLinks root maxExpansions relative []

end DirCache

/-! ### The export -/

namespace FsSystem

variable {root : PathBuf} {rootStat : Stat} {rootFd : ℕ} {writable : Bool}
  {cachePolicy : CachePolicy} {ids : GuestIds} {process : HostProcess} {handleLimit dirLimit : ℕ}

/-- What every reachable state of a device keeps to. -/
theorem Reachable.permits {s s' : FsSystem} {c : HostCall}
    (h : Reachable (VirtioFs.new root rootStat rootFd writable cachePolicy ids process handleLimit
      dirLimit) s) (hstep : Step (.call c) s s') : (Kind.any writable fun _ => True).Permits c :=
  (step_inv (h.inv (new_good root rootStat rootFd writable cachePolicy ids process handleLimit
    dirLimit)) hstep).2 c rfl

/-- **The server stays inside the export.**  Each name in a host call is one component that stays
in its directory; the directory is the root's descriptor, one opened by such a call from
another without following a link, or a duplicate.  A walk comes to an end whatever it is
answered, and follows at most 40 symlinks. -/
theorem call_contained :
    (∀ s s' c, Reachable (VirtioFs.new root rootStat rootFd writable cachePolicy ids process
        handleLimit dirLimit) s → Step (.call c) s s' →
      ∀ e ∈ c.op.entries, IsComponent e.2 ∧
        e.1.origin.Contained fun flags => flags.nofollow || flags.symlink) ∧
    ∀ (fd : Fd) (relative : PathBuf) (d : DirCache),
      (∀ answer : List HostCall → (op : HostOp) → op.Ans,
        ∃ tr r, Runs (DirCache.walk fd relative d) tr r ∧
          ∀ before c after, tr = before ++ c :: after → c.ans = answer before c.op) ∧
      ∀ tr r, Runs (DirCache.walk fd relative d) tr r →
        expansions tr ≤ 41 ∧ (expansions tr = 41 → r.1 = .error .eloop) := by
  refine ⟨?_, fun fd relative d => ⟨fun answer => exists_run _ answer, ?_⟩⟩
  · intro s s' c h hstep e he
    have hres : e ∈ c.op.resolves := by
      unfold HostOp.resolves
      split
      · next hop =>
        rw [hop] at he
        cases he
      · exact he
    obtain ⟨hinside, hname⟩ := (h.permits hstep).inside e hres
    refine ⟨hname, ?_⟩
    have hflags : (fun flags : OpenFlags => !flags.follows) = fun flags =>
        flags.nofollow || flags.symlink := by
      funext flags
      exact Bool.not_not _
    rw [← hflags]
    exact hinside
  · exact DirCache.walk_expansions fd relative d

end FsSystem

/-! ### A worker's directory -/

/-- A directory with a directory `a` in it. -/
def smallTree : HostRule
  | .openat .. => .ok 7
  | .dupfd _ => .ok 8
  | .fstat _ => .ok { dev := 1, ino := 2, mode := sIfdir ||| 0o755 }
  | .fstatat .. => .ok { dev := 1, ino := 3, mode := sIfdir ||| 0o755 }
  | .readDir _ => .ok [{ name := [97], ino := 3, dtype := dtDir }]
  | .stopping => false
  | .now => (0, 0)
  | .clockWithSleep => (0 : ℕ)
  | .raTake _ => none
  | .raRequest .. | .raInvalidate => ()
  | .pwrite .. | .pwritev .. | .fgetxattrSize .. | .flistxattrSize .. => .ok 0
  | .readlinkat .. | .pread .. | .preadv .. | .fgetxattr .. | .flistxattr .. => .error .enoattr
  | .fstatvfs .. | .ofdGetlk .. | .lseek .. => .error .einval
  | .faccessat .. | .mkdirat .. | .mkfifoat .. | .symlinkat .. | .unlinkat .. | .linkat ..
  | .renameat .. | .renameatx .. | .fchmodat .. | .utimensat .. | .fchmod .. | .futimens ..
  | .ftruncate .. | .preallocate .. | .punchHole .. | .fsetxattr .. | .fremovexattr ..
  | .syncAll .. | .syncData .. | .syncVolume | .flock .. | .ofdSetlk .. => .ok ()

theorem smallTree_fair : smallTree.Fair := by
  refine HostRule.fair_of_readDir fun fd r hr => ?_
  rw [List.mem_singleton.mp hr]
  decide

/-- The same while a link comes and goes: the first open of a name meets a link, the second,
with `O_SYMLINK`, no longer does. -/
def linkSwapped : HostRule
  | .openat _ _ flags _ => if flags.nofollow then .error .eloop else .ok 9
  | op => smallTree op

theorem linkSwapped_fair : linkSwapped.Fair :=
  HostRule.fair_of_readDir fun fd => smallTree_fair (.readDir fd)

/-- A device whose root is `/x`. -/
def smallExport (writable : Bool) : VirtioFs :=
  VirtioFs.new [[120]] { dev := 1, ino := 2, mode := sIfdir ||| 0o755 } 3 writable .auto {}
    ⟨0, 0, 1⟩ 100 100

/-- READDIRPLUS of the root, from the start. -/
def listRoot : Bytes := requestBytes 44 rootId (putU64 0 ++ putU64 0 ++ putU32 4096 ++ putU32 0)

/-- The directory `/x/a`, as the server queues it for the workers. -/
def queuedA : QueuedDir :=
  { path := [[120], [97]], parent := ⟨8, .dup (.dup .root)⟩, name := [97], depth := 0 }

/-- The device and the workers' state once the guest has listed the root. -/
def afterList (writable : Bool) : ReadaheadState × Except Errno Unit × FsGuest :=
  smallTree.play {} ((FsOp.request 0 0).serve
    (FsGuest.ask { dev := smallExport writable, mem := ramWith [] 0 } listRoot 4096))

/-- After the guest has listed the root, a worker begins with `/x/a`. -/
theorem worker_begins (writable : Bool) :
    ∃ s job, FsSystem.Reachable (smallExport writable) s ∧ s.workers 0 = .busy job ∧
      job.dir = queuedA ∧ job.generation = s.readahead.generation ∧
      job.rest = Readahead.prepare queuedA.parent queuedA.name () ∧ s.serving = none ∧
      s.guest = (afterList writable).2.2 ∧
      (afterList writable).1.pop = some (some queuedA, s.readahead) := by
  obtain ⟨s₁, hsteps, hserving, hguest, hreadahead, hworkers⟩ := FsSystem.ask_steps (s := { guest :=
    { dev := smallExport writable, mem := ramWith [] 0 } }) smallTree_fair listRoot 4096 rfl
  have hpop : (s₁.readahead.pop.map Prod.fst) = some (some queuedA) := by
    rw [hreadahead]
    cases writable <;> decide +kernel
  obtain ⟨⟨got, readahead⟩, hpop, hgot⟩ := Option.map_eq_some_iff.mp hpop
  obtain rfl : got = some queuedA := hgot
  have hstopped : s₁.readahead.stopped = false := by
    rw [hreadahead]
    cases writable <;> decide +kernel
  have hidle : s₁.workers 0 = .idle := by rw [hworkers]
  have hbegin : Function.update s₁.workers 0 (.begin readahead.generation (some queuedA)) 0 =
      .begin readahead.generation (some queuedA) := Function.update_self ..
  exact ⟨_, _, ⟨_, ⟨_, rfl⟩, hsteps.trans (.single trivial (.pop hidle hstopped hpop))⟩, hbegin,
    rfl, rfl, rfl, hserving, hguest, hreadahead ▸ hpop⟩

/-- A worker may come to look at names under a descriptor that was opened without `O_NOFOLLOW`:
the second open of `open_entry_nofollow` carries `O_SYMLINK` alone, and may find a directory where
the first had met a link. -/
theorem worker_opens_without_nofollow :
    ∃ s s' c, FsSystem.Reachable (smallExport true) s ∧ FsSystem.Step (.call c) s s' ∧
      ∃ e ∈ c.op.entries, ¬e.1.origin.Contained fun flags => flags.nofollow := by
  obtain ⟨s₀, job, ⟨s₁, hinit, hsteps⟩, hbusy, -, -, hrest, -⟩ := worker_begins true
  obtain ⟨s, job', hsteps', hbusy', hrest', -⟩ := FsSystem.work_steps linkSwapped_fair 6 hbusy
  rw [hrest] at hrest'
  have hnext : (linkSwapped.advance 6 (Readahead.prepare queuedA.parent queuedA.name ())).nextOp =
      some (.fstatat ⟨9, .opened queuedA.parent.origin [97] Io.symlinkFlags⟩ [97]) := by
    decide +kernel
  rw [← hrest'] at hnext
  cases hcall : job'.rest with
  | ret a =>
    rw [hcall] at hnext
    cases hnext
  | call op k =>
    rw [hcall] at hnext
    obtain rfl := Option.some.inj hnext
    refine ⟨s, _, _, ⟨s₁, hinit, hsteps.trans hsteps'⟩,
      .work hbusy' hcall (linkSwapped_fair (.fstatat _ _)), _, List.mem_singleton_self _, ?_⟩
    intro hcontained
    cases hcontained with
    | opened _ _ hflags => cases hflags

/-- The names a worker looks at, and where it looks. -/
theorem call_contained_worker :
    ∃ s s' c, FsSystem.Reachable (smallExport true) s ∧ FsSystem.Step (.call c) s s' ∧
      c.op.entries = [(queuedA.parent, [97])] ∧
      ∀ e ∈ c.op.entries, IsComponent e.2 ∧
        e.1.origin.Contained fun flags => flags.nofollow || flags.symlink := by
  obtain ⟨s, job, hreach, hbusy, -, -, hrest, -⟩ := worker_begins true
  have hstep := FsSystem.Step.work hbusy hrest (smallTree_fair (.openat queuedA.parent [97] _ _))
  exact ⟨s, _, _, hreach, hstep, rfl, FsSystem.call_contained.1 s _ _ hreach hstep⟩

/-! ### What the device remembers -/

/-- **Whatever the guest asked, the device remembers nothing outside the export.**  Between two
operations of any run, every path recorded for a node, a socket or a tmpfile is under the root; the
directories that are cached, and those that are open, were reached from the root without leaving it;
and so were those that are queued for the workers. -/
theorem FsSystem.tables_inside {root : PathBuf} {rootStat : Stat} {rootFd : ℕ} {writable : Bool}
    {cachePolicy : CachePolicy} {ids : GuestIds} {process : HostProcess} {handleLimit dirLimit : ℕ}
    {s : FsSystem}
    (h : Reachable (VirtioFs.new root rootStat rootFd writable cachePolicy ids process handleLimit
      dirLimit) s) :
    (s.serving = none →
      (s.guest.dev.nodes.All fun _ n => ∀ p ∈ n.paths, PathBuf.Under root p) ∧
        (s.guest.dev.sockets.All fun p _ => PathBuf.Under root p) ∧
        (s.guest.dev.handles.All fun _ f => ∀ p ∈ f.temporaryPath, PathBuf.Under root p) ∧
        (s.guest.dev.dirs.openDirs.All fun _ e => e.1.Inside) ∧
        s.guest.dev.dirHandles.All fun _ d => d.file.Inside) ∧
      ∀ dir ∈ s.readahead.queue, dir.parent.Inside ∧ IsComponent dir.name := by
  have hinv := h.inv (new_good root rootStat rootFd writable cachePolicy ids process handleLimit
    dirLimit)
  refine ⟨fun hidle => ?_, hinv.readahead.queue⟩
  have hgood := hinv.guest hidle
  refine ⟨hgood.nodes, hgood.sockets, ?_, hgood.dirs.openDirs, ?_⟩
  · exact fun fh f hf p hp => (hgood.temporaries fh f hf p hp).1
  · exact fun fh d hd => (hgood.dirHandles fh d hd).1

/-- After the guest has listed the root, with a worker begun. -/
theorem tables_inside_listed :
    ∃ s, s.serving = none ∧ FsSystem.Reachable (smallExport true) s ∧
      s.guest.dev.nodes.All fun _ n => ∀ p ∈ n.paths, PathBuf.Under [[120]] p := by
  obtain ⟨s, -, hreach, -, -, -, -, hidle, -⟩ := worker_begins true
  exact ⟨s, hidle, hreach, ((FsSystem.tables_inside hreach).1 hidle).1⟩

/-! ### Exports that are not writable -/

/-- **An export that is not writable is never written**: whatever is asked of the server, in
whatever order and with resets in between, no host call creates, removes, renames, writes, truncates
or allocates anything, or changes attributes. -/
theorem FsSystem.readOnly_unchanged {root : PathBuf} {rootStat : Stat} {rootFd : ℕ}
    {cachePolicy : CachePolicy} {ids : GuestIds} {process : HostProcess} {handleLimit dirLimit : ℕ}
    {s s' : FsSystem} {c : HostCall}
    (h : Reachable (VirtioFs.new root rootStat rootFd false cachePolicy ids process handleLimit
      dirLimit) s) (hstep : Step (.call c) s s') : c.op.mutates = false := by
  cases hmutates : c.op.mutates with
  | false => rfl
  | true =>
    have hwritable : false = true := (h.permits hstep).change hmutates
    cases hwritable

theorem readOnly_unchanged_worker :
    ∃ s s' c, FsSystem.Reachable (smallExport false) s ∧ FsSystem.Step (.call c) s s' ∧
      c.op.mutates = false := by
  obtain ⟨s, job, hreach, hbusy, -, -, hrest, -⟩ := worker_begins false
  have hstep := FsSystem.Step.work hbusy hrest (smallTree_fair (.openat queuedA.parent [97] _ _))
  exact ⟨s, _, _, hreach, hstep, FsSystem.readOnly_unchanged hreach hstep⟩
