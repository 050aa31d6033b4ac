/-
What SYNCFS has to flush.

The server keeps a bit, `dirty`, that says that the export was changed since the volume was
last synced; a SYNCFS on a clean export answers success without a sync.  Beside a run of the
system a flag is kept of the calls made: a call that changes the tree raises it, a sync of the
volume that succeeds lowers it.

The bit is set where a mutation is admitted, in `require_writable` and before a direct WRITE.
An OPEN that truncates or clears set-id bits does not pass there, nor does the removal of a
tmpfile by RELEASE or a reset.

* `FsSystem.dirty_since_sync` — where every such operation finds the bit set, the bit is set
  whenever something was changed since the last sync, and SYNCFS answers success only after one;
* `open_truncates_clean` — an OPEN that truncates leaves the export clean.
-/
import HviVmm.FsContainment

open CallPrograms Fuse LabelledSteps
open scoped QueueIndex

/-! ### Changes and syncs -/

/-- Whether the tree was changed since the volume was last synced. -/
def settle (changed : Bool) (c : HostCall) : Bool :=
  match c with
  | ⟨.syncVolume, .ok ()⟩ => false
  | c => changed || c.op.mutates

theorem settle_of_mutates_false {changed : Bool} {c : HostCall} (hmut : c.op.mutates = false)
    (hsync : c.op ≠ .syncVolume) : settle changed c = changed := by
  unfold settle
  split
  · exact absurd rfl hsync
  · rw [hmut, Bool.or_false]

section

variable {σ α β : Type} {root : PathBuf} {live : ℕ → Prop} {part : σ → VirtioFs} {changed : Bool}

/-- What is assumed of the answers.  The kinds below do not differ in it. -/
def AnswersFair (live : ℕ → Prop) : HostCall → Prop := (Kind.any true live).Fair

/-- The device is in order, and dirty if something was changed. -/
def Settled (root : PathBuf) (live : ℕ → Prop) (changed : Bool) (s : VirtioFs) : Prop :=
  s.Good root true live ∧ (changed = true → s.dirty = true)

/-- The program ends with the device settled, as far as the calls have come to by then. -/
def SettledEnd (root : PathBuf) (live : ℕ → Prop) (part : σ → VirtioFs) (changed : Bool)
    (p : Prog HostOp HostOp.Ans (Except Errno α × σ)) : Prop :=
  p.Tracks (AnswersFair live) settle (fun changed r => Settled root live changed (part r.2)) changed

/-- From a settled device to a settled device. -/
def Settles (root : PathBuf) (live : ℕ → Prop) (part : σ → VirtioFs) (m : Io σ α) : Prop :=
  ∀ changed s, Settled root live changed (part s) → SettledEnd root live part changed (m s)

theorem Settles.bind {m : Io σ α} {f : α → Io σ β} (hm : Settles root live part m)
    (hf : ∀ a, Settles root live part (f a)) : Settles root live part (m >>= f) := by
  intro changed s hs
  refine Prog.tracks_bind (hm changed s hs) ?_
  rintro changed' ⟨r, s'⟩ hs'
  cases r with
  | ok a => exact hf a changed' s' hs'
  | error e => exact hs'

/-- A kind that changes nothing and syncs nothing. -/
def Kind.still (live : ℕ → Prop) (dirtied : Bool) : Kind where
  prepared := true
  dirtied := dirtied
  live := live

/-- A kind that may change anything, the export being marked dirty. -/
def Kind.marked (live : ℕ → Prop) : Kind where
  change := true
  prepared := true
  dirtied := true
  live := live

/-- What changes nothing and syncs nothing, and does not clear the bit. -/
theorem settledEnd_of_still {p : Prog HostOp HostOp.Ans (Except Errno α × σ)} {s : VirtioFs}
    (hs : Settled root live changed s)
    (h : ∀ dirtied, (VirtioFs.rules root true (Kind.still live dirtied)).good s →
      p.Ensures (Kind.still live dirtied).Fair (Kind.still live dirtied).Permits fun r =>
        (VirtioFs.rules root true (Kind.still live dirtied)).good (part r.2)) :
    SettledEnd root live part changed p := by
  have hgood : (VirtioFs.rules root true (Kind.still live changed)).good s :=
    VirtioFs.good_of_files (fun _ => trivial) hs.1 hs.2
  refine (h changed hgood).tracks (fun c hc => ?_) fun r hr => ⟨hr.1, hr.2.1⟩
  refine settle_of_mutates_false ?_ ?_
  · cases hmut : c.op.mutates with
    | false => rfl
    | true => cases hc.change hmut
  · intro hsync
    cases hc.sync hsync

/-- On a dirty export, whatever does not clear the bit. -/
theorem settledEnd_of_marked {p : Prog HostOp HostOp.Ans (Except Errno α × σ)}
    (h : p.Ensures (Kind.marked live).Fair (Kind.marked live).Permits fun r =>
      (VirtioFs.rules root true (Kind.marked live)).good (part r.2)) :
    SettledEnd root live part changed p :=
  h.tracks_any (fun _ _ hr => ⟨hr.1, fun _ => hr.2.1 rfl⟩) changed

end

/-! ### Handlers -/

namespace VirtioFs

open Proc

section

variable {α : Type} {root : PathBuf} {live : ℕ → Prop}

theorem settles_of_keeps {m : Fs α} {R : α → Prop}
    (h : ∀ dirtied, Keeps (rules root true (Kind.still live dirtied)) m R) :
    Settles root live id m := by
  intro changed s hs
  refine settledEnd_of_still hs fun dirtied hgood => ?_
  exact (h dirtied s hgood).imp fun r hr => hr.1

theorem requireWritable_bind {f : Unit → Fs α} {s : VirtioFs} (hw : s.writable = true) :
    (requireWritable >>= f) s = f () { s with dirty := true } := by
  have heq : requireWritable s = .ret (.ok (), { s with dirty := true }) := by
    show (if s.writable then Proc.modify fun s => { s with dirty := true }
      else Proc.throw .erofs : Fs Unit) s = _
    exact congrFun (if_pos hw) s
  show (requireWritable s).bind (Proc.next f) = _
  rw [heq]
  rfl

theorem Mutating.settles {P : Kind → VirtioFs → Prop} {m : Fs α} (h : Mutating root true P m)
    (hP : ∀ s, P (Kind.marked live) s := by exact fun _ => trivial) : Settles root live id m := by
  obtain ⟨f, rfl, hf⟩ := h
  intro changed s hs
  rw [requireWritable_bind (s := s) hs.1.writable_eq]
  have hgood : (rules root true (Kind.marked live)).good { s with dirty := true } :=
    good_of_files (fun _ => trivial) { hs.1 with } fun _ => rfl
  have hkeeps : KeepsAt (rules root true (Kind.marked live)) { s with dirty := true } (f ()) _ :=
    hf (Kind.marked live) rfl rfl rfl _ hgood (hP _)
  exact settledEnd_of_marked (hkeeps.imp fun r hr => hr.1)

/-- SYNCFS syncs the volume of an export that is dirty, and marks it clean if that succeeds. -/
theorem syncDirty_apply (failed : Option Errno) (s : VirtioFs) :
    syncDirty failed s = (if s.writable && s.dirty then do
      match ← Io.ask .syncVolume with
      | .ok () => do
        Proc.modify fun s => { s with dirty := false }
        pure failed
      | .error err => pure (failed <|> some (ioErrno err))
    else pure failed : Fs (Option Errno)) s := rfl

/-- A sync that succeeds takes the bit with it, and one that fails leaves it. -/
theorem syncDirty_settles (failed : Option Errno) : Settles root live id (syncDirty failed) := by
  intro changed s hs
  rw [syncDirty_apply]
  split
  · intro x _
    cases x with
    | ok u => exact ⟨{ hs.1 with }, Bool.noConfusion⟩
    | error err =>
      have hsettle : settle changed ⟨.syncVolume, .error err⟩ = changed := Bool.or_false changed
      rw [hsettle]
      exact hs
  · exact hs

theorem syncfs_settles : Settles root live id syncfs := by
  intro changed s hs
  refine Settles.bind (settles_of_keeps fun _ => syncEach_keeps _) (fun failed => ?_) changed s hs
  refine .bind (syncDirty_settles failed) fun failed => ?_
  cases failed with
  | some errno => exact fun _ _ hs => hs
  | none => exact fun _ _ hs => hs

theorem serves_still {op : Option Opcode} {payload : Bytes} {dirtied : Bool}
    (hchange : changes op payload = false ∨ op = some .release) (hsync : op ≠ some .syncfs) :
    Serves true (Kind.still live dirtied) op payload where
  change h hrelease := by
    rw [hchange.resolve_right hrelease] at h
    cases h
  prepared _ := rfl
  sync h := absurd h hsync

/-- Every request but the two that may change the tree without admitting a mutation. -/
theorem dispatch_settles {op : Option Opcode} (node : UInt64) {payload : Bytes}
    (context : RequestContext) (unique : UInt64) (capacity : ℕ)
    (hopen : op = some .openFile → changes op payload = false) (hrelease : op ≠ some .release) :
    Settles root live id (dispatch op node payload context unique capacity) := by
  by_cases hsync : op = some .syncfs
  · subst hsync
    exact syncfs_settles
  · cases hchange : changes op payload with
    | false =>
      refine settles_of_keeps (R := fun _ => True) fun _ => .of_at fun s hs => ?_
      exact dispatch_keeps _ _ _ (serves_still (.inl hchange) hsync) s hs
        (meets_ungated rfl fun hop => absurd hop hrelease)
    | true =>
      -- what is left admits the mutation first
      cases op with
      | none => cases hchange
      | some op =>
        cases op with
        | setattr => exact (setattr_mutating node payload).settles
        | symlink => exact (symlink_mutating node payload context).settles
        | mknod => exact (mknod_mutating node payload context).settles
        | mkdir => exact (mkdir_mutating node payload context).settles
        | unlink => exact (remove_mutating node payload false).settles
        | rmdir => exact (remove_mutating node payload true).settles
        | rename => exact (rename_mutating node payload false).settles
        | rename2 => exact (rename_mutating node payload true).settles
        | link => exact (link_mutating node payload).settles
        | write => exact (write_mutating node payload).settles
        | create => exact (create_mutating node payload context).settles fun _ => .inl rfl
        | setxattr => exact (setxattr_mutating node payload).settles
        | removexattr => exact (removexattr_mutating node payload).settles
        | fallocate => exact (fallocate_mutating payload).settles
        | copyFileRange => exact (copyFileRange_mutating payload).settles
        | tmpfile => exact (tmpfile_mutating node payload context).settles fun _ => .inl rfl
        | openFile =>
          rw [hopen rfl] at hchange
          cases hchange
        | release => exact absurd rfl hrelease
        | _ => cases hchange

theorem answerRequest_settledEnd {raw : Bytes} (maxOut : ℕ) {changed : Bool} {s : VirtioFs}
    (hs : Settled root live changed s)
    (h : ∀ node context unique capacity, SettledEnd root live id changed
      (dispatch (requestOp raw) node (requestPayload raw) context unique capacity s)) :
    SettledEnd root live id changed (answerRequest raw maxOut s) := by
  generalize hm : answerRequest raw maxOut = m
  unfold answerRequest at hm
  dsimp only at hm
  split at hm
  · subst hm
    exact hs
  · split at hm <;> subst hm
    · refine settles_of_keeps (R := fun _ => True) (fun _ => ?_) changed s hs
      exact .bind (effect_keeps rfl fun s => .forgetCount s _ _) fun _ _ => .pure trivial
    · refine settles_of_keeps (R := fun _ => True) (fun _ => ?_) changed s hs
      exact .bind (modify_keeps fun s => batchForgetFrom_steps rfl _ _ _ s) fun _ _ => .pure trivial
    · exact hs
    · have hattempt : ∀ node context unique capacity, SettledEnd root live id changed
          ((dispatch (requestOp raw) node (requestPayload raw) context unique capacity).attempt
            s) :=
        fun node context unique capacity =>
          Prog.tracks_bind (h node context unique capacity) fun _ _ hs' => hs'
      refine Prog.tracks_bind (hattempt _ _ _ _) ?_
      rintro changed' ⟨r, s'⟩ hs'
      cases r with
      | error e => exact hs'
      | ok result =>
        exact settles_of_keeps (fun _ => replyTo_keeps _ result) changed' s' hs'

/-- A request that does not open a file to change it and releases nothing. -/
theorem handleFuse_settles {raw : Bytes} (maxOut : ℕ)
    (hopen : requestOp raw = some .openFile → changes (requestOp raw) (requestPayload raw) = false)
    (hrelease : requestOp raw ≠ some .release) :
    Settles root live id (handleFuse raw maxOut) := by
  have hanswer : Settles root live id (answerRequest raw maxOut) := by
    intro changed s hs
    refine answerRequest_settledEnd maxOut hs fun node context unique capacity => ?_
    exact dispatch_settles node context unique capacity hopen hrelease changed s hs
  unfold handleFuse
  split
  · exact .bind (settles_of_keeps fun _ => dropPrepared_keeps) fun _ => hanswer
  · exact hanswer

end

/-- The request changes the tree without admitting a mutation: an OPEN that truncates or clears
set-id bits, or a RELEASE of a tmpfile. -/
def ChangesUnmarked (s : VirtioFs) (raw : Bytes) : Prop :=
  (requestOp raw = some .openFile ∧ changes (requestOp raw) (requestPayload raw) = true) ∨
    requestOp raw = some .release ∧ ∃ fh handle, getU64 (requestPayload raw) 0 = some fh ∧
      s.handles.lookup fh = some handle ∧ handle.temporaryPath.isSome = true

end VirtioFs

/-! ### Chains -/

namespace FsGuest

open Proc VirtioFs

section

variable {α : Type} {root : PathBuf} {live : ℕ → Prop} {changed : Bool} {g : FsGuest}
variable {input : List Seg}

theorem settles_of_keeps {m : Serve α} {R : α → Prop}
    (h : ∀ dirtied, Keeps (FsGuest.rules root true (Kind.still live dirtied)) m R) :
    Settles root live FsGuest.dev m := by
  intro changed g hg
  refine settledEnd_of_still hg fun dirtied hgood => ?_
  exact (h dirtied g hgood).imp fun r hr => hr.1

theorem onDev_settledEnd {m : Fs α} (h : SettledEnd root live id changed (m g.dev)) :
    SettledEnd root live FsGuest.dev changed (onDev m g) :=
  Prog.tracks_bind h fun _ _ hr => hr

theorem handleFuseGathered_settledEnd (unique : UInt64) {raw : Bytes} (maxOut : ℕ)
    (hraw : gatherBytes g.mem input 0 (totalLen input) = some raw)
    (h : SettledEnd root live id changed (handleFuse raw maxOut g.dev)) :
    SettledEnd root live FsGuest.dev changed (handleFuseGathered unique input maxOut g) := by
  rw [handleFuseGathered_eq unique maxOut hraw]
  refine Prog.tracks_bind (onDev_settledEnd h) ?_
  rintro changed' ⟨r, g'⟩ hg'
  cases r with
  | ok response => exact hg'
  | error e => exact hg'

/-- A direct WRITE marks the export itself, before anything else. -/
theorem handleFuseDesc_write {header : Bytes} (output : List Seg) (maxOut : ℕ)
    (hheader : gatherBytes g.mem input 0 inHeaderLen = some header)
    (hop : requestOp header = some .write) (hw : g.dev.writable = true) :
    handleFuseDesc input output maxOut g =
      handleFuseDesc input output maxOut { g with dev := { g.dev with dirty := true } } := by
  have hwrite : ∀ {g : FsGuest} (node unique : UInt64) (declared : ℕ), g.dev.writable = true →
      writeDirect node unique declared input g = ((do
        onDev (Proc.modify fun s => { s with dirty := true })
        onDev VirtioFs.dropPrepared
        writeFrom node unique declared input) : Serve (Option FsReply)) g := by
    intro g node unique declared hw
    exact congrFun (if_neg (by rw [hw]; decide)) g
  rw [handleFuseDesc_eq output maxOut hheader,
    handleFuseDesc_eq (g := { g with dev := { g.dev with dirty := true } }) output maxOut hheader,
    tryDirect_write output maxOut hop, hwrite _ _ _ hw,
    hwrite _ _ _ (g := { g with dev := { g.dev with dirty := true } }) hw]
  rfl

theorem handleFuseDesc_marked (hg : g.dev.Good root true live) (hdirty : g.dev.dirty = true)
    (output : List Seg) (maxOut : ℕ)
    (hsync : ∀ raw, gatherBytes g.mem input 0 (totalLen input) = some raw →
      requestOp raw ≠ some .syncfs) :
    SettledEnd root live FsGuest.dev changed (handleFuseDesc input output maxOut g) := by
  refine settledEnd_of_marked ?_
  have hgood : (FsGuest.rules root true (Kind.marked live)).good g :=
    good_of_files (fun _ => trivial) hg fun _ => hdirty
  refine (handleFuseDesc_at hgood output maxOut (fun _ _ _ _ => rfl) fun raw hraw => ?_).mono
    (fun _ hc => hc) (fun _ hc => hc) fun r hr => hr.1
  exact .inr ⟨⟨fun _ _ _ => rfl, fun _ => rfl, fun h => absurd h (hsync raw hraw), rfl⟩,
    meets_ungated rfl fun _ _ _ _ _ _ => rfl⟩

/-- **A request**, whichever path it takes, that finds the export dirty if it is one that does
not mark it. -/
theorem handleFuseDesc_settledEnd (hg : Settled root live changed g.dev) (output : List Seg)
    (maxOut : ℕ) (hlen : inHeaderLen ≤ totalLen input)
    (h : ∀ raw, gatherBytes g.mem input 0 (totalLen input) = some raw → ChangesUnmarked g.dev raw →
      g.dev.dirty = true) :
    SettledEnd root live FsGuest.dev changed (handleFuseDesc input output maxOut g) := by
  -- what neither changes the tree nor syncs it
  have hstill : (∀ header, gatherBytes g.mem input 0 inHeaderLen = some header →
        requestOp header ≠ some .write) →
      (∀ raw, gatherBytes g.mem input 0 (totalLen input) = some raw →
        (changes (requestOp raw) (requestPayload raw) = false ∨ requestOp raw = some .release ∧
          ¬ ChangesUnmarked g.dev raw) ∧ requestOp raw ≠ some .syncfs) →
      SettledEnd root live FsGuest.dev changed (handleFuseDesc input output maxOut g) := by
    intro hwrite hraw
    refine settledEnd_of_still hg fun dirtied hgood => ?_
    refine (handleFuseDesc_at (g := g) hgood output maxOut
      (fun header hheader hop => absurd hop (hwrite header hheader)) fun raw hr => ?_).mono
      (fun _ hc => hc) (fun _ hc => hc) fun r hr => hr.1
    obtain ⟨hchange, hsync⟩ := hraw raw hr
    refine .inr ⟨serves_still (hchange.imp id And.left) hsync, meets_ungated rfl ?_⟩
    intro hop fh handle hfh hhandle htmp
    rcases hchange with hchange | ⟨-, hmarks⟩
    · rw [hop] at hchange
      cases hchange
    · exact absurd (.inr ⟨hop, fh, handle, hfh, hhandle, htmp⟩) hmarks
  cases hheader : gatherBytes g.mem input 0 inHeaderLen with
  | none =>
    rw [handleFuseDesc_apply, hheader]
    exact hg
  | some header =>
    by_cases hwrite : requestOp header = some .write
    · rw [handleFuseDesc_write output maxOut hheader hwrite hg.1.writable_eq]
      refine handleFuseDesc_marked (g := { g with dev := { g.dev with dirty := true } })
        { hg.1 with } rfl output maxOut fun raw hraw => ?_
      rw [← FsOp.requestOp_header hlen hheader hraw, hwrite]
      decide
    have hnotWrite : ∀ header', gatherBytes g.mem input 0 inHeaderLen = some header' →
        requestOp header' ≠ some .write := by
      intro header' hheader'
      rw [hheader, Option.some.injEq] at hheader'
      rwa [← hheader']
    cases hraw : gatherBytes g.mem input 0 (totalLen input) with
    | none => exact hstill hnotWrite fun raw hr => by rw [hraw] at hr; cases hr
    | some raw =>
      have hop := FsOp.requestOp_header hlen hheader hraw
      by_cases hread : requestOp header = some .read
      · refine hstill hnotWrite fun raw' hr => ?_
        rw [hraw, Option.some.injEq] at hr
        rw [← hr, ← hop, hread]
        exact ⟨.inl rfl, by decide⟩
      by_cases hunmarked : ChangesUnmarked g.dev raw
      · refine handleFuseDesc_marked hg.1 (h raw hraw hunmarked) output maxOut fun raw' hr => ?_
        rw [hraw, Option.some.injEq] at hr
        rw [← hr]
        rcases hunmarked with ⟨hopen, -⟩ | ⟨hrelease, -⟩
        · rw [hopen]
          decide
        · rw [hrelease]
          decide
      by_cases hrelease : requestOp raw = some .release
      · refine hstill hnotWrite fun raw' hr => ?_
        rw [hraw, Option.some.injEq] at hr
        rw [← hr]
        exact ⟨.inr ⟨hrelease, hunmarked⟩, by rw [hrelease]; decide⟩
      rw [handleFuseDesc_buffered output maxOut hheader hread fun h => absurd h hwrite]
      refine handleFuseGathered_settledEnd _ maxOut hraw ?_
      refine handleFuse_settles maxOut (fun ho => ?_) hrelease changed g.dev hg
      rw [← Bool.not_eq_true]
      exact fun hchanges => hunmarked (.inl ⟨ho, hchanges⟩)

theorem serveAccepted_settledEnd (hg : Settled root live changed g.dev) (i : Fin 2) (head : UInt16)
    {ds : List Desc} (hlen : inHeaderLen ≤ totalLen (readable ds))
    (h : ∀ raw, gatherBytes g.mem (readable ds) 0 (totalLen (readable ds)) = some raw →
      ChangesUnmarked g.dev raw → g.dev.dirty = true) :
    SettledEnd root live FsGuest.dev changed (serveAccepted i head ds g) := by
  refine Prog.tracks_bind (handleFuseDesc_settledEnd hg _ _ hlen h) ?_
  rintro changed' ⟨r, g'⟩ hg'
  match r with
  | .error e => exact hg'
  | .ok (.direct n) => exact hg'
  | .ok (.buffered response) =>
    exact settles_of_keeps (fun _ => finishBuffered_keeps i head ds response) changed' g' hg'

end

end FsGuest

/-- The operation changes the tree without admitting a mutation: a request that does, or a reset
that removes a tmpfile. -/
def FsOp.Unmarked (g : FsGuest) : FsOp → Prop
  | .request i head => ∃ raw, g.askedWhole i head = some raw ∧ g.dev.ChangesUnmarked raw
  | .retry => False
  | .reset => ∃ fh handle, g.dev.handles.lookup fh = some handle ∧
    handle.temporaryPath.isSome = true

namespace FsOp

open Proc VirtioFs FsGuest

variable {root : PathBuf} {live : ℕ → Prop} {changed : Bool} {g : FsGuest}

theorem request_settledEnd (hg : Settled root live changed g.dev) {i : Fin 2} {head : UInt16}
    (h : (FsOp.request i head).Unmarked g → g.dev.dirty = true) :
    SettledEnd root live FsGuest.dev changed ((FsOp.request i head).serve g) := by
  have hchain : SettledEnd root live FsGuest.dev changed (handleChain i head g) := by
    rw [handleChain_eq]
    split
    · next haccepted =>
      have hlen : inHeaderLen ≤ totalLen (g.chainInput i head) :=
        inHeaderLen_le_of_accepts haccepted
      exact serveAccepted_settledEnd hg i head hlen fun raw hraw hunmarked =>
        h ⟨raw, hraw, hunmarked⟩
    · exact hg
  refine Prog.tracks_bind hchain ?_
  rintro changed' ⟨r, g'⟩ hg'
  match r with
  | .error e => exact hg'
  | .ok none => exact hg'
  | .ok (some used) =>
    exact FsGuest.settles_of_keeps (fun _ => pushUsed_keeps i head used) changed' g' hg'

/-- A reset on a dirty export, or one that removes no tmpfile. -/
theorem reset_settledEnd (hg : Settled root live changed g.dev)
    (h : FsOp.reset.Unmarked g → g.dev.dirty = true) :
    SettledEnd root live FsGuest.dev changed (FsOp.reset.serve g) := by
  refine onDev_settledEnd ?_
  by_cases hunmarked : FsOp.reset.Unmarked g
  · refine settledEnd_of_marked ?_
    have hgood : (VirtioFs.rules root true (Kind.marked live)).good g.dev :=
      good_of_files (fun _ => trivial) hg.1 fun _ => h hunmarked
    exact (reset_at rfl hgood fun _ _ _ _ => rfl).imp fun r hr => hr.1
  · refine settledEnd_of_still hg fun dirtied hgood => ?_
    refine (reset_at rfl hgood fun fh handle hhandle htmp => ?_).imp fun r hr => hr.1
    exact absurd ⟨fh, handle, hhandle, htmp⟩ hunmarked

/-- **An operation** that finds the export dirty if it does not mark it leaves the export
settled. -/
theorem serve_settledEnd (op : FsOp) (hg : Settled root live changed g.dev)
    (h : op.Unmarked g → g.dev.dirty = true) :
    SettledEnd root live FsGuest.dev changed (op.serve g) := by
  cases op with
  | request i head => exact request_settledEnd hg h
  | retry =>
    refine FsGuest.settles_of_keeps (R := fun _ => True) (fun _ => ?_) changed g hg
    exact .bind retryLockWaiters_keeps fun _ _ => .pure trivial
  | reset => exact reset_settledEnd hg h

end FsOp

/-! ### Runs -/

namespace FsSystem

/-- A system and the flag that is kept of its calls. -/
structure Watched where
  sys : FsSystem
  /-- The tree was changed since the volume was last synced. -/
  changed : Bool := false

/-- The flag after a step. -/
def settleEvent (changed : Bool) : FsEvent → Bool
  | .call c => settle changed c
  | _ => changed

/-- One step, watched. -/
structure WatchedStep (l : FsEvent) (w w' : Watched) : Prop where
  step : Step l w.sys w'.sys
  changed : w'.changed = settleEvent w.changed l

/-- One step, where an operation that does not mark the export finds it dirty. -/
structure MarkedStep (l : FsEvent) (w w' : Watched) : Prop extends WatchedStep l w w' where
  marked : ∀ op, l = .start op → op.Unmarked w.sys.guest → w.sys.guest.dev.dirty = true

/-- What holds of every state reached: between two operations the device is settled, and what is
being served will leave it so. -/
structure Watched.Inv (root : PathBuf) (w : Watched) : Prop where
  sys : w.sys.Inv root true
  idle : w.sys.serving = none → w.changed = true → w.sys.guest.dev.dirty = true
  serving : ∀ t, w.sys.serving = some t →
    SettledEnd root (Live w.sys.lastEnd) FsGuest.dev w.changed t.rest

variable {root : PathBuf} {w w' : Watched} {l : FsEvent}

/-- The calls of the workers change nothing and sync nothing. -/
theorem worker_settle {s : FsSystem} {i : Fin 2} {job : Job} {op : HostOp} {x : op.Ans}
    {k : op.Ans → Prog HostOp HostOp.Ans (Except Errno (Option (Fd × PreparedDir)) × Unit)}
    (h : s.Inv root true) (hbusy : s.workers i = .busy job) (hrest : job.rest = .call op k)
    (hfair : HostFair ⟨op, x⟩) (changed : Bool) : settle changed ⟨op, x⟩ = changed := by
  obtain ⟨hpermits, -⟩ := work_inv h hbusy hrest hfair
  refine settle_of_mutates_false ?_ ?_
  · cases hmut : op.mutates with
    | false => rfl
    | true => cases hpermits.change hmut
  · intro hsync
    cases hpermits.sync hsync

theorem MarkedStep.inv (h : w.Inv root) (hstep : MarkedStep l w w') : w'.Inv root := by
  obtain ⟨sys, changed⟩ := w
  obtain ⟨sys', changed'⟩ := w'
  obtain ⟨⟨hstep, hchanged⟩, hmarked⟩ := hstep
  have hinv := (step_inv h.sys hstep).1
  dsimp only at hstep hchanged hmarked hinv
  subst hchanged
  cases hstep with
  | outside hidle hout =>
    obtain ⟨transport, notified, hdev⟩ := hout
    refine ⟨hinv, fun _ hchanged => ?_, h.serving⟩
    rw [hdev]
    exact h.idle hidle hchanged
  | start op hidle =>
    refine ⟨hinv, nofun, fun t ht => ?_⟩
    obtain rfl := Option.some.inj ht
    exact op.serve_settledEnd ⟨h.sys.guest hidle, h.idle hidle⟩ (hmarked op rfl)
  | call hserving hfair hanswer =>
    refine ⟨hinv, nofun, fun t ht => ?_⟩
    obtain rfl := Option.some.inj ht
    exact h.serving _ hserving _ (fair_any h.sys.readahead hfair hanswer)
  | endRejecting hserving hr =>
    have hend : Settled root _ changed _ := h.serving _ hserving
    exact ⟨hinv, fun _ => hend.2, nofun⟩
  | endOther hserving hr =>
    have hend : Settled root _ changed _ := h.serving _ hserving
    exact ⟨hinv, fun _ => hend.2, nofun⟩
  | pop hidle hstopped hpop => exact ⟨hinv, h.idle, h.serving⟩
  | work hbusy hrest hfair =>
    have hsame : settleEvent changed (.call _) = changed :=
      worker_settle h.sys hbusy hrest hfair changed
    rw [hsame]
    exact ⟨hinv, h.idle, h.serving⟩
  | publish hbusy hrest => exact ⟨hinv, h.idle, h.serving⟩
  | stop => exact ⟨hinv, h.idle, h.serving⟩
  | exit hidle hstopped => exact ⟨hinv, h.idle, h.serving⟩

/-- Syncing the open files leaves the device as it is. -/
theorem syncEach_runs {fds : List Fd} {s s' : VirtioFs} {tr : List HostCall}
    {r : Except Errno (Option Errno)} (hrun : Runs (VirtioFs.syncEach fds s) tr (r, s')) :
      s' = s := by
  induction fds generalizing tr r s' with
  | nil => exact (Proc.runs_pure.mp hrun).2.2
  | cons fd fds ih =>
    rcases Proc.runs_bind.mp hrun with ⟨e, -, hask⟩ | ⟨tr₁, tr₂, synced, s₁, -, hask, hrest⟩
    · obtain ⟨x, -, -, heq⟩ := Proc.runs_ask.mp hask
      exact heq
    obtain ⟨x, -, -, rfl⟩ := Proc.runs_ask.mp hask
    rcases Proc.runs_bind.mp hrest with ⟨e, -, hfail⟩ | ⟨tr₃, tr₄, rest, s₂, -, hrest, hlast⟩
    · exact ih hfail
    obtain rfl := ih hrest
    cases synced with
    | ok u => exact (Proc.runs_pure.mp hlast).2.2
    | error err => exact (Proc.runs_pure.mp hlast).2.2

/-- A SYNCFS on a dirty export answers success only after a sync of the volume. -/
theorem syncfs_syncs {s s' : VirtioFs} {tr : List HostCall} {reply : Bytes}
    (hw : s.writable = true) (hdirty : s.dirty = true)
    (hrun : Runs (VirtioFs.syncfs s) tr (.ok reply, s')) : ⟨.syncVolume, .ok ()⟩ ∈ tr := by
  rcases Proc.runs_bind.mp hrun with ⟨e, he, -⟩ | ⟨tr₁, tr₂, s₀, s₁, rfl, hget, hrun₁⟩
  · cases he
  obtain ⟨rfl, hs₀, rfl⟩ := Proc.runs_get.mp hget
  obtain rfl := Except.ok.inj hs₀
  rcases Proc.runs_bind.mp hrun₁ with ⟨e, he, -⟩ | ⟨tr₁, tr₃, failed, s₂, rfl, heach, hrun₂⟩
  · cases he
  obtain rfl := syncEach_runs heach
  rcases Proc.runs_bind.mp hrun₂ with ⟨e, he, -⟩ | ⟨tr₄, tr₅, failed', s₃, rfl, hsync, hlast⟩
  · cases he
  -- the bit is set, so the volume is synced, and a failure would be reported
  have hset : (s₂.writable && s₂.dirty) = true := by
    rw [hw, hdirty]
    rfl
  rw [VirtioFs.syncDirty_apply, if_pos hset] at hsync
  rcases Proc.runs_bind.mp hsync with ⟨e, he, -⟩ | ⟨tr₆, tr₇, x, s₄, rfl, hask, hanswer⟩
  · cases he
  obtain ⟨x', rfl, hx, rfl⟩ := Proc.runs_ask.mp hask
  obtain rfl := Except.ok.inj hx
  cases x with
  | ok u => simp
  | error err =>
    obtain ⟨-, hfailed, -⟩ := Proc.runs_pure.mp hanswer
    obtain rfl := Except.ok.inj hfailed
    cases failed with
    | none => cases (Proc.runs_throw.mp hlast).2.1
    | some errno => cases (Proc.runs_throw.mp hlast).2.1

/-- **What was changed is flushed.**  In every run of a writable export in which an operation that
changes the tree without admitting a mutation finds the export dirty, the bit is set, between
two operations, whenever the tree was changed since the volume was last synced; and then a SYNCFS
answers success only after it has synced the volume. -/
theorem dirty_since_sync {rootStat : Stat} {rootFd : ℕ} {cachePolicy : CachePolicy}
    {ids : GuestIds} {process : HostProcess} {handleLimit dirLimit : ℕ} {s₀ : FsSystem}
    (hinit : Init (VirtioFs.new root rootStat rootFd true cachePolicy ids process handleLimit
      dirLimit) s₀) (hsteps : Steps MarkedStep (fun _ => True) ⟨s₀, false⟩ w)
    (hidle : w.sys.serving = none) (hchanged : w.changed = true) :
    w.sys.guest.dev.dirty = true ∧
      ∀ tr reply s', Runs (VirtioFs.syncfs w.sys.guest.dev) tr (.ok reply, s') →
        ⟨.syncVolume, .ok ()⟩ ∈ tr := by
  have hinv : w.Inv root := by
    refine hsteps.inv (fun _ hstep h => hstep.inv h) ?_
    obtain ⟨mem, rfl⟩ := hinit
    have hnew := new_good root rootStat rootFd true cachePolicy ids process handleLimit dirLimit
    exact ⟨⟨⟨nofun, .empty⟩, nofun, fun _ => hnew _, nofun, le_rfl, le_rfl⟩, nofun, nofun⟩
  have hdirty := hinv.idle hidle hchanged
  exact ⟨hdirty, fun tr reply s' hrun =>
    syncfs_syncs (hinv.sys.guest hidle).writable_eq hdirty hrun⟩

/-! ### Runs against a host that answers by a rule -/

/-- The flag when a program has been served to its end. -/
def watch {α : Type} (host : HostRule) : ReadaheadState → Bool → Prog HostOp HostOp.Ans α → Bool
  | _, changed, .ret _ => changed
  | s, changed, .call op k =>
    watch host (host.answer s op).2 (settle changed ⟨op, (host.answer s op).1⟩)
      (k (host.answer s op).1)

/-- What is being served can be served to its end, watched. -/
theorem play_marked {host : HostRule} (hfair : host.Fair) {s : FsSystem} (changed : Bool)
    {rejects : Prop} {p : Prog HostOp HostOp.Ans (Except Errno Unit × FsGuest)}
    (hserving : s.serving = some ⟨rejects, p⟩) :
    ∃ s', Steps MarkedStep (fun _ => True) ⟨s, changed⟩ ⟨s', watch host s.readahead changed p⟩ ∧
      s'.serving = none ∧ s'.guest = (host.play s.readahead p).2.2 ∧
      s'.readahead = (host.play s.readahead p).1 := by
  induction p generalizing s changed with
  | ret a =>
    by_cases hr : rejects
    · exact ⟨_, .single trivial ⟨⟨.endRejecting hserving hr, rfl⟩, nofun⟩, rfl, rfl, rfl⟩
    · exact ⟨_, .single trivial ⟨⟨.endOther hserving hr, rfl⟩, nofun⟩, rfl, rfl, rfl⟩
  | call op k ih =>
    obtain ⟨s₁, hcall, hserving₁, hreadahead₁⟩ : ∃ s₁,
        Step (.call ⟨op, (host.answer s.readahead op).1⟩) s s₁ ∧
        s₁.serving = some ⟨rejects, k (host.answer s.readahead op).1⟩ ∧
        s₁.readahead = (host.answer s.readahead op).2 :=
      ⟨_, .call hserving (HostRule.answer_fair hfair s.readahead op)
        (host.answer_answers s.readahead op), rfl, rfl⟩
    obtain ⟨s', hsteps, hidle, hguest, hreadahead⟩ :=
      ih _ (settle changed ⟨op, (host.answer s.readahead op).1⟩) hserving₁
    rw [hreadahead₁] at hsteps hguest hreadahead
    have hfirst : Steps MarkedStep (fun _ => True) ⟨s, changed⟩
        ⟨s₁, settle changed ⟨op, (host.answer s.readahead op).1⟩⟩ :=
      .single trivial ⟨⟨hcall, rfl⟩, nofun⟩
    exact ⟨s', hfirst.trans hsteps, hidle, hguest, hreadahead⟩

end FsSystem

/-! ### An OPEN that truncates -/

/-- The root holds one file. -/
def oneFile : HostRule
  | .fstatat .. => .ok { dev := 1, ino := 3, mode := sIfreg ||| 0o644 }
  | .fstat _ => .ok { dev := 1, ino := 3, mode := sIfreg ||| 0o644 }
  | op => smallTree op

theorem oneFile_fair : oneFile.Fair :=
  HostRule.fair_of_readDir fun fd => smallTree_fair (.readDir fd)

/-- LOOKUP of `f` in the root, which gets node 2. -/
def lookupF : Bytes := requestBytes 1 rootId [102, 0]

/-- OPEN of node 2 with `O_RDWR | O_TRUNC`. -/
def openTrunc : Bytes := requestBytes 14 2 (putU32 (2 ||| linuxOTrunc) ++ putU32 0)

/-- MKDIR of `d` in the root. -/
def mkdirD : Bytes := requestBytes 9 rootId (putU32 0o755 ++ putU32 0 ++ [100, 0])

/-- A clean export, with nothing in guest memory. -/
def cleanGuest : FsGuest := { dev := smallExport true, mem := ramWith [] 0 }

/-- The program that serves one request put into guest memory. -/
def asked (g : FsGuest) (request : Bytes) : Prog HostOp HostOp.Ans (Except Errno Unit × FsGuest) :=
  (FsOp.request 0 0).serve (g.ask request 4096)

namespace FsSystem

/-- A request can be asked and served whole, watched. -/
theorem ask_watched {host : HostRule} (hfair : host.Fair) {s : FsSystem} (changed : Bool)
    (request : Bytes) (hidle : s.serving = none) {changed' : Bool}
    (hwatch : watch host s.readahead changed (asked s.guest request) = changed') :
    ∃ s', Steps WatchedStep (fun _ => True) ⟨s, changed⟩ ⟨s', changed'⟩ ∧ s'.serving = none ∧
      s'.guest = (host.play s.readahead (asked s.guest request)).2.2 ∧
      s'.readahead = (host.play s.readahead (asked s.guest request)).1 := by
  obtain ⟨s₁, hask, hidle₁, hguest, hreadahead, -⟩ := ask_step request 4096 hidle
  obtain ⟨s₂, hstart, hserving, hreadahead₂, -⟩ := start_step (.request 0 0) hidle₁
  obtain ⟨s', hsteps, h⟩ := play_marked hfair changed hserving
  rw [hguest, hreadahead₂, hreadahead] at hsteps h
  have hfirst : Steps WatchedStep (fun _ => True) ⟨s, changed⟩ ⟨s₁, changed⟩ :=
    .single trivial ⟨hask, rfl⟩
  have hsecond : Steps WatchedStep (fun _ => True) ⟨s₁, changed⟩ ⟨s₂, changed⟩ :=
    .single trivial ⟨hstart, rfl⟩
  rw [← hwatch]
  exact ⟨s', (hfirst.trans hsecond).trans (hsteps.simulate fun _ h => h.toWatchedStep), h⟩

theorem ask_marked {host : HostRule} (hfair : host.Fair) {s : FsSystem} (changed : Bool)
    (request : Bytes) (hidle : s.serving = none) {changed' : Bool}
    (hwatch : watch host s.readahead changed (asked s.guest request) = changed')
    (hmarked : ¬(FsOp.request 0 0).Unmarked (s.guest.ask request 4096)) :
    ∃ s', Steps MarkedStep (fun _ => True) ⟨s, changed⟩ ⟨s', changed'⟩ ∧ s'.serving = none := by
  obtain ⟨s₁, hask, hidle₁, hguest, hreadahead, -⟩ := ask_step request 4096 hidle
  obtain ⟨s₂, hstart, hserving, hreadahead₂, -⟩ := start_step (.request 0 0) hidle₁
  obtain ⟨s', hsteps, hidle', -⟩ := play_marked hfair changed hserving
  rw [hguest, hreadahead₂, hreadahead] at hsteps
  have hfirst : Steps MarkedStep (fun _ => True) ⟨s, changed⟩ ⟨s₁, changed⟩ :=
    .single trivial ⟨⟨hask, rfl⟩, nofun⟩
  have hsecond : Steps MarkedStep (fun _ => True) ⟨s₁, changed⟩ ⟨s₂, changed⟩ := by
    refine .single trivial ⟨⟨hstart, rfl⟩, fun op hop hunmarked => ?_⟩
    cases hop
    rw [hguest] at hunmarked
    exact absurd hunmarked hmarked
  rw [← hwatch]
  exact ⟨s', (hfirst.trans hsecond).trans hsteps, hidle'⟩

end FsSystem

/-- The device and the workers' state once `f` has its node. -/
def afterLookup : ReadaheadState × Except Errno Unit × FsGuest :=
  oneFile.play {} (asked cleanGuest lookupF)

theorem lookupF_unchanged : FsSystem.watch oneFile {} false (asked cleanGuest lookupF) = false := by
  decide +kernel

theorem openTrunc_changed :
    FsSystem.watch oneFile afterLookup.1 false (asked afterLookup.2.2 openTrunc) = true := by
  decide +kernel

theorem openTrunc_clean :
    (oneFile.play afterLookup.1 (asked afterLookup.2.2 openTrunc)).2.2.dev.dirty = false := by
  decide +kernel

/-- An OPEN with `O_TRUNC` of a file in a clean export has cut the file and leaves the export
clean. -/
theorem open_truncates_clean :
    ∃ s₀ w, FsSystem.Init (smallExport true) s₀ ∧
      Steps FsSystem.WatchedStep (fun _ => True) ⟨s₀, false⟩ w ∧ w.sys.serving = none ∧
      w.changed = true ∧ w.sys.guest.dev.dirty = false := by
  obtain ⟨s₁, hlookup, hidle₁, hguest₁, hreadahead₁⟩ :=
    FsSystem.ask_watched (s := { guest := cleanGuest }) oneFile_fair false lookupF rfl
      lookupF_unchanged
  have hafter : (s₁.readahead, s₁.guest) = (afterLookup.1, afterLookup.2.2) := by
    rw [hguest₁, hreadahead₁, afterLookup]
  obtain ⟨hreadahead, hguest⟩ := Prod.mk.inj hafter
  have hwatch : FsSystem.watch oneFile s₁.readahead false (asked s₁.guest openTrunc) = true := by
    rw [hguest, hreadahead]
    exact openTrunc_changed
  obtain ⟨s₂, hopen, hidle₂, hguest₂, -⟩ :=
    FsSystem.ask_watched (s := s₁) oneFile_fair false openTrunc hidle₁ hwatch
  refine ⟨_, _, ⟨_, rfl⟩, hlookup.trans hopen, hidle₂, rfl, ?_⟩
  rw [hguest₂, hguest, hreadahead]
  exact openTrunc_clean

theorem mkdirD_changed : FsSystem.watch oneFile {} false (asked cleanGuest mkdirD) = true := by
  decide +kernel

theorem mkdirD_op :
    ((cleanGuest.ask mkdirD 4096).askedWhole 0 0).map VirtioFs.requestOp = some (some .mkdir) := by
  decide +kernel

/-- A directory is made in a clean export, which is dirty then. -/
theorem dirty_since_sync_mkdir :
    ∃ s₀ w, FsSystem.Init (smallExport true) s₀ ∧
      Steps FsSystem.MarkedStep (fun _ => True) ⟨s₀, false⟩ w ∧ w.sys.serving = none ∧
      w.changed = true ∧ w.sys.guest.dev.dirty = true := by
  have hmarked : ¬(FsOp.request 0 0).Unmarked (cleanGuest.ask mkdirD 4096) := by
    -- a MKDIR admits the mutation
    have hop := mkdirD_op
    rintro ⟨raw, hraw, ⟨hopen, -⟩ | ⟨hrelease, -⟩⟩
    · rw [hraw, Option.map_some, Option.some.injEq, hopen] at hop
      cases hop
    · rw [hraw, Option.map_some, Option.some.injEq, hrelease] at hop
      cases hop
  obtain ⟨s', hsteps, hidle⟩ := FsSystem.ask_marked (s := { guest := cleanGuest }) oneFile_fair
    false mkdirD rfl mkdirD_changed hmarked
  exact ⟨_, _, ⟨_, rfl⟩, hsteps, hidle, rfl,
    (FsSystem.dirty_since_sync ⟨_, rfl⟩ hsteps hidle rfl).1⟩
