/-
Serving a request keeps inside the export.

`dispatch_keeps` puts the handlers together: what a kind must allow depends on the opcode, and
for OPEN on its flags.  Over it come the two paths a request can take, the chain it arrives in,
the lock requests that are parked and the reset of the device.  The direct paths make only a
`preadv` or `pwritev` of their own; everything else they leave to the buffered path.

* `DevStep` — a step of the device: a `Change`, or one of the transport, the parked locks or a
  reset;
* `FsGuest.handleFuseDesc_at` — a request, whichever path it takes, goes by such steps;
* `reset_at` — and so does a reset.
-/
import HviVmm.FsListingKeep

open CallPrograms Fuse Relation

namespace VirtioFs

open Proc

/-! ### Dispatch -/

/-- Whether a request may change the tree: the handlers that admit a mutation, an OPEN that
truncates or clears set-id bits, and RELEASE, which may remove a tmpfile. -/
def changes (op : Option Opcode) (payload : Bytes) : Bool :=
  match op with
  | some .openFile =>
    match getU32 payload 0, getU32 payload 4 with
    | some flags, some openFlags => openChanges flags openFlags
    | _, _ => false
  | some .setattr | some .symlink | some .mknod | some .mkdir | some .unlink | some .rmdir
  | some .rename | some .rename2 | some .link | some .write | some .create | some .setxattr
  | some .removexattr | some .fallocate | some .copyFileRange | some .tmpfile
  | some .release => true
  | _ => false

/-- The kind allows what a request with this opcode and payload does. -/
structure Serves (writable : Bool) (k : Kind) (op : Option Opcode) (payload : Bytes) : Prop where
  change : changes op payload = true → op ≠ some .release → writable = true → k.change = true
  prepared : op = some .readdir ∨ op = some .readdirplus → k.prepared = true
  sync : op = some .syncfs → k.sync = true ∧ k.dirtied = false
  makes : k.makes = true := by rfl

/-- What a request needs of the tables.  Where it makes a handle without asking the budget it finds
room: CREATE, TMPFILE, and an OPEN that may take back a parked descriptor.  A RELEASE removes the
tmpfile of its handle. -/
structure Meets (k : Kind) (op : Option Opcode) (node : UInt64) (payload : Bytes) (s : VirtioFs) :
    Prop where
  made : op = some .create ∨ op = some .tmpfile → Roomy k s
  reused : op = some .openFile → Reopens k node false s
  released : op = some .release → ∀ fh handle, getU64 payload 0 = some fh →
    s.handles.lookup fh = some handle → handle.temporaryPath.isSome = true → k.change = true

section

variable {root : PathBuf} {writable : Bool} {k : Kind} {s : VirtioFs} {op : Option Opcode}
  {node : UInt64} {payload : Bytes}

/-- A kind that does not ask the budget finds room. -/
theorem meets_ungated (hk : k.ungated = true)
    (h : op = some .release → ∀ fh handle, getU64 payload 0 = some fh →
      s.handles.lookup fh = some handle → handle.temporaryPath.isSome = true → k.change = true) :
    Meets k op node payload s := ⟨fun _ => .inl hk, fun _ _ _ => .inl hk, h⟩

instance (k : Kind) (op : Option Opcode) (node : UInt64) (payload : Bytes) :
    Spared (Meets k op node payload) where
  spare s s' h hs := by
    refine ⟨fun hop => h.roomy (hs.made hop), fun hop => (hs.reused hop).spare h, ?_⟩
    intro hop fh handle hfh hhandle htmp
    have hmap := (h.handles fh).symm
    rw [hhandle, Option.map_some, Option.map_eq_some_iff] at hmap
    obtain ⟨handle', hhandle', heq⟩ := hmap
    exact hs.released hop fh handle' hfh hhandle' (heq ▸ htmp)

theorem requireWritable_keeps :
    Keeps (rules root writable k) requireWritable fun _ => writable = true := by
  refine .bind get_keeps fun s hs => .ite (fun hw => ?_) fun _ => .throw _
  rw [hs.writable_eq] at hw
  exact (tweak_keeps fun s => .dirty s fun _ => rfl).weaken fun _ _ => hw

theorem Mutating.keeps {α : Type} {P : Kind → VirtioFs → Prop} [Spared (P k)] {m : Fs α}
    (h : Mutating root writable P m) (hk : writable = true → k.change = true)
    (hmakes : k.makes = true) : KeepsWhen root writable k (P k) m := by
  obtain ⟨f, rfl, hf⟩ := h
  exact .bind requireWritable_keeps fun _ hw => hf k (hk hw) hmakes hw

instance : Spared fun _ => True := ⟨fun _ _ _ _ => trivial⟩

/-- **A request of any opcode and content keeps the rules** of a kind that allows it, where it meets
what it needs. -/
theorem dispatch_keeps (context : RequestContext) (unique : UInt64) (capacity : ℕ)
    (h : Serves writable k op payload) :
    KeepsWhen root writable k (Meets k op node payload)
      (dispatch op node payload context unique capacity) := by
  have hmakes := h.makes
  -- a handler that admits a mutation
  have hmutating : ∀ {m : Fs Bytes}, Mutating root writable (fun _ _ => True) m →
      changes op payload = true ∧ op ≠ some .release →
      KeepsWhen root writable k (Meets k op node payload) m :=
    fun hm hop s hs _ => hm.keeps (h.change hop.1 hop.2) hmakes s hs trivial
  cases op with
  | none => exact .of_keeps (.throw (R := fun _ => True) _)
  | some op =>
    cases op with
    | init => exact .of_keeps (init_keeps payload)
    | lookup => exact .of_keeps (lookup_keeps node payload)
    | getattr => exact .of_keeps (getattr_keeps node payload)
    | setattr => exact hmutating (setattr_mutating node payload) ⟨rfl, by simp⟩
    | readlink => exact .of_keeps (readlink_keeps node)
    | symlink => exact hmutating (symlink_mutating node payload context) ⟨rfl, by simp⟩
    | mknod => exact hmutating (mknod_mutating node payload context) ⟨rfl, by simp⟩
    | mkdir => exact hmutating (mkdir_mutating node payload context) ⟨rfl, by simp⟩
    | unlink => exact hmutating (remove_mutating node payload false) ⟨rfl, by simp⟩
    | rmdir => exact hmutating (remove_mutating node payload true) ⟨rfl, by simp⟩
    | rename => exact hmutating (rename_mutating node payload false) ⟨rfl, by simp⟩
    | rename2 => exact hmutating (rename_mutating node payload true) ⟨rfl, by simp⟩
    | link => exact hmutating (link_mutating node payload) ⟨rfl, by simp⟩
    | openFile =>
      intro s hs hroom
      refine openNode_keeps hmakes node payload false
        (fun flags openFlags hflags hopen _ hchanges => ?_)
        s hs (hroom.reused rfl)
      exact h.change (by simpa [changes, hflags, hopen] using hchanges) (by simp)
    | opendir =>
      refine .bind get_keeps fun s _ => ?_
      split
      · intro s hs _
        exact openNode_keeps hmakes node payload true (fun _ _ _ _ hdir => by cases hdir) s hs
          fun hdir => by cases hdir
      · exact .of_keeps (.throw (R := fun _ => True) _)
    | read => exact .of_keeps (read_keeps node payload capacity)
    | write => exact hmutating (write_mutating node payload) ⟨rfl, by simp⟩
    | readdir => exact .of_keeps (readdir_keeps (h.prepared (.inl rfl)) node payload capacity false)
    | readdirplus =>
      exact .of_keeps (readdir_keeps (h.prepared (.inr rfl)) node payload capacity true)
    | statfs => exact .of_keeps statfs_keeps
    | access => exact .of_keeps (access_keeps node payload)
    | create =>
      intro s hs hroom
      exact (create_mutating node payload context).keeps (h.change rfl (by simp)) hmakes s hs
        (hroom.made (.inl rfl))
    | setxattr => exact hmutating (setxattr_mutating node payload) ⟨rfl, by simp⟩
    | getxattr => exact .of_keeps (getxattr_keeps node payload)
    | listxattr => exact .of_keeps (listxattr_keeps node payload)
    | removexattr => exact hmutating (removexattr_mutating node payload) ⟨rfl, by simp⟩
    | release => exact fun s hs hmeets => release_at hmakes hs (hmeets.released rfl)
    | releasedir => exact .of_keeps (releaseDir_keeps hmakes payload)
    | flush => exact .of_keeps (flush_keeps payload)
    | fsync => exact .of_keeps (fsync_keeps payload)
    | fsyncdir => exact .of_keeps (fsyncDir_keeps node payload)
    | getlk => exact .of_keeps (lock_keeps payload .getlk unique)
    | setlk => exact .of_keeps (lock_keeps payload .setlk unique)
    | setlkw => exact .of_keeps (lock_keeps payload .setlkw unique)
    | poll => exact .of_keeps (poll_keeps payload)
    | fallocate => exact hmutating (fallocate_mutating payload) ⟨rfl, by simp⟩
    | lseek => exact .of_keeps (lseek_keeps payload)
    | copyFileRange => exact hmutating (copyFileRange_mutating payload) ⟨rfl, by simp⟩
    | syncfs => exact .of_keeps (syncfs_keeps (h.sync rfl).1 (h.sync rfl).2)
    | tmpfile =>
      intro s hs hroom
      exact (tmpfile_mutating node payload context).keeps (h.change rfl (by simp)) hmakes s hs
        (hroom.made (.inr rfl))
    | statx => exact .of_keeps (statx_keeps node payload)
    | ioctl | setupmapping | removemapping | forget | batchForget | destroy | interrupt =>
      exact .of_keeps (.throw (R := fun _ => True) _)

theorem replyTo_keeps (unique : UInt64) (result : Except Errno Bytes) :
    Safe root writable k (replyTo unique result) := by
  refine .bind get_keeps fun s _ => .ite (fun _ => .pure trivial) fun _ => ?_
  cases result with
  | ok payload => exact .pure trivial
  | error errno => exact .pure trivial

/-- The opcode of a request, as its header states it. -/
def requestOp (raw : Bytes) : Option Opcode := Opcode.decode ((getU32 raw 4).getD 0)

/-- The header declares less than a header or more than there is. -/
def Malformed (raw : Bytes) : Prop :=
  ((getU32 raw 0).getD 0).toNat < inHeaderLen ∨ raw.length < ((getU32 raw 0).getD 0).toNat

/-- The node a request is about. -/
def requestNode (raw : Bytes) : UInt64 := (getU64 raw 16).getD 0

theorem batchForgetFrom_steps (hmakes : k.makes = true) (input : Bytes) (n offset : ℕ)
    (s : VirtioFs) : ReflTransGen (Change root writable k) s
      (batchForgetFrom input n offset s) := by
  induction n generalizing offset s with
  | zero => exact .refl
  | succ n ih =>
    rw [batchForgetFrom]
    split
    · next node lookups _ _ => exact .head (.effect hmakes (.forgetCount s node lookups)) (ih _ _)
    · exact .refl

/-- A request is answered, given how it is dispatched. -/
theorem answerRequest_at (hs : (rules root writable k).good s) (hmakes : k.makes = true)
    {raw : Bytes} (maxOut : ℕ)
    (h : ∀ context unique capacity, KeepsAt (rules root writable k) s (dispatch (requestOp raw)
      (requestNode raw) (requestPayload raw) context unique capacity) fun _ _ => True) :
    KeepsAt (rules root writable k) s (answerRequest raw maxOut) fun _ _ => True := by
  unfold answerRequest
  extract_lets declared unique node context payload
  split
  · exact .pure hs trivial
  · split
    · exact change_bind hs (.effect hmakes (.forgetCount s _ _)) fun hgood => .pure hgood trivial
    · refine Keeps.keepsAt ?_ hs
      exact .bind (modify_keeps fun s => batchForgetFrom_steps hmakes _ _ _ s) fun _ _ =>
        .pure trivial
    · exact .pure hs trivial
    · exact (h context unique _).attempt.bind fun result t ht _ _ =>
        (replyTo_keeps _ result).keepsAt ht

theorem answerRequest_keeps (raw : Bytes) (maxOut : ℕ)
    (h : Serves writable k (requestOp raw) (requestPayload raw)) :
    KeepsWhen root writable k (Meets k (requestOp raw) (requestNode raw) (requestPayload raw))
      (answerRequest raw maxOut) :=
  fun s hs hmeets => answerRequest_at hs h.makes maxOut fun context unique capacity =>
    dispatch_keeps context unique capacity h s hs hmeets

/-- Such a request is refused at once. -/
theorem answerRequest_malformed {raw : Bytes} (h : Malformed raw) (maxOut : ℕ) :
    answerRequest raw maxOut = pure (errorResponse ((getU64 raw 8).getD 0) .einval) := by
  unfold answerRequest
  exact if_pos h

theorem handleFuse_malformed {raw : Bytes} (h : Malformed raw) (maxOut : ℕ) :
    Safe root writable k (handleFuse raw maxOut) := by
  unfold handleFuse
  rw [answerRequest_malformed h]
  exact .whenThen (fun _ => dropPrepared_keeps) (.pure trivial)

theorem handleFuse_keeps (raw : Bytes) (maxOut : ℕ)
    (h : Serves writable k (requestOp raw) (requestPayload raw)) :
    KeepsWhen root writable k (Meets k (requestOp raw) (requestNode raw) (requestPayload raw))
      (handleFuse raw maxOut) := by
  unfold handleFuse
  exact .whenThen (fun _ => dropPrepared_keeps) (answerRequest_keeps raw maxOut h)

end

/-! ### The device between two requests -/

/-- What a reset lets go of, one after the other. -/
inductive Clears : VirtioFs → VirtioFs → Prop
  | handles (s : VirtioFs) (transport : Transport 2) (notified : UInt32) :
      Clears s { s with transport, notified, handles := ∅ }
  | dirHandles (s : VirtioFs) :
      Clears s { s with dirHandles := ∅, fh0Listings := ∅, fh0Order := [], fh0Finished := [] }
  | session (s : VirtioFs) : Clears s s.clearSession

/-- One step of the device as it serves the queues and is reset. -/
inductive DevStep (root : PathBuf) (writable : Bool) (k : Kind) : VirtioFs → VirtioFs → Prop
  | change {s s' : VirtioFs} (h : Change root writable k s s') : DevStep root writable k s s'
  | settled (s : VirtioFs) : DevStep root writable k s { s with lockToPark := none }
  | waiters (s : VirtioFs) (lockWaiters : List LockWaiter) :
      DevStep root writable k s { s with lockWaiters }
  | registers (s : VirtioFs) (transport : Transport 2) (notified : UInt32) :
      DevStep root writable k s { s with transport, notified }
  | clears {s s' : VirtioFs} (hk : k.makes = true) (h : Clears s s') : DevStep root writable k s s'

section

variable {root : PathBuf} {writable : Bool} {k : Kind} {s s' : VirtioFs}

theorem Clears.good_rules (h : Clears s s') (hs : (rules root writable k).good s) :
    (rules root writable k).good s' := by
  obtain ⟨hgood, hdirty, hholds⟩ := hs
  cases h with
  | handles => exact ⟨{ hgood with temporaries := .empty }, hdirty, .empty, hholds.parked⟩
  | dirHandles =>
    exact ⟨{ hgood with dirHandles := .empty, listings := .empty }, hdirty, hholds.handles,
      hholds.parked⟩
  | session =>
    exact ⟨{ hgood with nodes := hgood.nodes.retain, sockets := .empty }, hdirty, hholds.handles,
      .empty⟩

theorem DevStep.good_rules (h : DevStep root writable k s s')
    (hs : (rules root writable k).good s) : (rules root writable k).good s' := by
  cases h with
  | change h => exact h.good_rules hs
  | settled | waiters | registers => exact ⟨{ hs.1 with }, hs.2.1, hs.2.2.handles, hs.2.2.parked⟩
  | clears _ h => exact h.good_rules hs

theorem DevStep.spares (h : ReflTransGen (DevStep root writable k.spare) s s') :
    ReflTransGen (DevStep root writable k) s s' ∧ Spare s s' := by
  induction h with
  | refl => exact ⟨.refl, .refl s⟩
  | tail _ hstep ih =>
    cases hstep with
    | change h => exact ⟨ih.1.tail (.change h.spare.1), ih.2.trans h.spare.2⟩
    | settled => exact ⟨ih.1.tail (.settled _), ih.2.trans { Spare.refl _ with }⟩
    | waiters ws => exact ⟨ih.1.tail (.waiters _ ws), ih.2.trans { Spare.refl _ with }⟩
    | registers tr nt => exact ⟨ih.1.tail (.registers _ tr nt), ih.2.trans { Spare.refl _ with }⟩
    | clears hk _ => cases hk

variable (root writable k) in
/-- The rules of `rules`, with the steps of the device. -/
def devRules : Rules VirtioFs HostOp HostOp.Ans :=
  { rules root writable k with
    moves := ReflTransGen (DevStep root writable k)
    moves_refl := fun _ => .refl
    moves_trans := ReflTransGen.trans }

theorem dev_at {α : Type} {m : Fs α} {R : α → VirtioFs → Prop}
    (h : KeepsAt (rules root writable k) s m R) : KeepsAt (devRules root writable k) s m R :=
  h.relax (fun _ hc => hc) (fun _ hc => hc)
    (fun t hg hm => ⟨hg, ReflTransGen.mono (fun _ _ hstep => .change hstep) s t hm⟩)
    fun _ _ _ ha => ha

theorem devStep_keeps {f : VirtioFs → VirtioFs} (h : ∀ s, DevStep root writable k s (f s)) :
    Keeps (devRules root writable k) (Proc.modify f : Fs Unit) fun _ => True :=
  .modify fun s hs => ⟨(h s).good_rules hs, .single (h s)⟩

/-- **A reset** removes the tmpfiles of the handles it drops. -/
theorem reset_at (hk : k.makes = true) (hs : (rules root writable k).good s)
    (h : ∀ fh handle, s.handles.lookup fh = some handle → handle.temporaryPath.isSome = true →
      k.change = true) :
    KeepsAt (devRules root writable k) s reset fun _ _ => True := by
  refine .get_bind (Keeps.keepsAt ?_ hs)
  refine .bind (devStep_keeps fun s => .clears hk (.handles s _ _)) fun _ _ => ?_
  have hremove : Safe root writable k (Proc.forEach (fun handle : FileHandle => do
      let _ ← (removeTemporary handle.temporaryPath).attempt) s.handles.values) := by
    refine .forEach fun handle hmem => ?_
    obtain ⟨fh, hlookup⟩ := HashMap.mem_values.mp hmem
    refine .bind (removeTemporary_keeps fun p hp => ?_).attempt fun _ _ => .pure trivial
    exact ⟨(hs.1.temporaries fh handle hlookup p hp).1,
      h fh handle hlookup (Option.isSome_of_mem hp)⟩
  refine .bind (.of_at fun s hs => dev_at (hremove.keepsAt hs)) fun _ _ => ?_
  refine .bind (devStep_keeps fun s => .clears hk (.dirHandles s)) fun _ _ => ?_
  have hdrop : Safe root writable k (Io.ask .raInvalidate : Fs Unit) :=
    .weaken (Io.askPlain_keeps .raInvalidate rfl rfl rfl nofun) fun _ _ => trivial
  refine .bind (.of_at fun s hs => dev_at (hdrop.keepsAt hs)) fun _ _ => ?_
  exact devStep_keeps fun s => .clears hk (.session s)

end

end VirtioFs

/-! ### The direct paths and the chain -/

namespace FsGuest

open Proc VirtioFs

/-- The rules of the device, over the device and guest RAM. -/
def rules (root : PathBuf) (writable : Bool) (k : Kind) : Rules FsGuest HostOp HostOp.Ans where
  fair := k.Fair
  permits := k.Permits
  good g := (VirtioFs.rules root writable k).good g.dev
  moves g g' := ReflTransGen (DevStep root writable k) g.dev g'.dev
  moves_refl _ := .refl
  moves_trans := ReflTransGen.trans

/-- A procedure that keeps the rules, whatever it returns. -/
abbrev Safe {α : Type} (root : PathBuf) (writable : Bool) (k : Kind) (m : Serve α) : Prop :=
  Keeps (rules root writable k) m fun _ => True

/-- The rules as long as guest RAM is `mem`: up to where the request is gathered. -/
def memRules (root : PathBuf) (writable : Bool) (k : Kind) (mem : GuestRam) :
    Rules FsGuest HostOp HostOp.Ans :=
  { rules root writable k with good := fun g => (rules root writable k).good g ∧ g.mem = mem }

instance (root : PathBuf) (writable : Bool) (k : Kind) : Follows k (rules root writable k) :=
  ⟨fun _ h => h, fun _ h => h⟩

instance (root : PathBuf) (writable : Bool) (k : Kind) (mem : GuestRam) :
    Follows k (memRules root writable k mem) := ⟨fun _ h => h, fun _ h => h⟩

section

variable {root : PathBuf} {writable : Bool} {k : Kind} {mem : GuestRam} {α : Type} {R : α → Prop}
  {g : FsGuest}
variable {input : List Seg}

theorem onDev_at {m : Fs α} {R : α → VirtioFs → Prop}
    (h : KeepsAt (devRules root writable k) g.dev m R) :
    KeepsAt (rules root writable k) g (onDev m) fun a g' => R a g'.dev :=
  h.zoom (fun _ hc => hc) (fun _ hc => hc) (fun _ hg hm => ⟨hg, hm⟩) fun _ _ ha => ha

theorem onDev_keeps {m : Fs α} (h : Keeps (devRules root writable k) m R) :
    Keeps (rules root writable k) (onDev m) R :=
  .of_at fun _ hg => onDev_at (h.keepsAt hg)

theorem onDev_keepsMem {m : Fs α} (h : Keeps (VirtioFs.rules root writable k) m R) :
    Keeps (memRules root writable k mem) (onDev m) R := by
  have hdev : Keeps (devRules root writable k) m R := .of_at fun _ hs => dev_at (h.keepsAt hs)
  exact hdev.zoom (fun _ hc => hc) (fun _ hc => hc) (fun _ hg => hg.1) fun _ _ hg ht hm =>
    ⟨⟨ht, hg.2⟩, hm⟩

theorem spareMem_at {m : Serve α} (h : Keeps (memRules root writable k.spare g.mem) m R)
    (hg : (rules root writable k).good g) :
    KeepsAt (rules root writable k) g m fun a g' => R a ∧ g'.mem = g.mem ∧ Spare g.dev g'.dev := by
  refine Prog.Ensures.mono (h g ⟨hg, rfl⟩) (fun _ hc => hc)
    (fun _ hc => ⟨hc.1, hc.2, hc.3, hc.4⟩) fun r hr => ?_
  obtain ⟨hgood, hmoves, hret⟩ := hr
  obtain ⟨hsteps, hspare⟩ := DevStep.spares hmoves
  exact ⟨hgood.1, hsteps, fun a ha => ⟨hret a ha, hgood.2, hspare⟩⟩

theorem setMem_keeps (mem : GuestRam) : Safe root writable k (setMem mem) :=
  .modify fun _ hg => ⟨hg, .refl⟩

theorem get_keepsMem :
    Keeps (memRules root writable k mem) (Proc.get : Serve FsGuest) fun g => g.mem = mem :=
  .get fun _ hg => hg.2

theorem preadvRetry_keeps (file : Fd) (iov : List (ℕ × ℕ)) (offset : UInt64) :
    Safe root writable k (preadvRetry file iov offset) := by
  refine .ite (fun _ => .pure trivial) fun _ => ?_
  exact .weaken (Io.askPlain_keeps (.preadv _ _ _) rfl rfl rfl nofun) fun _ _ => trivial

theorem readInto_keeps (unique : UInt64) (output : List Seg) (handle : FileHandle)
    (offset : UInt64) (iov : List (ℕ × ℕ)) :
    Keeps (rules root writable k) (readInto unique output handle offset iov) fun r => r ≠ none := by
  refine .bind (preadvRetry_keeps _ _ _) fun r _ => ?_
  split
  · exact .pure nofun
  · refine .bind (.get fun _ _ => trivial) fun g _ => ?_
    refine .bind (.modify fun _ hg => ⟨hg, .refl⟩) fun _ _ => ?_
    refine .bind (.get fun _ _ => trivial) fun g' _ => ?_
    refine .bind (setMem_keeps _) fun _ _ => ?_
    exact .ite (fun _ => .pure nofun) fun _ => .pure nofun

/-- A direct READ reads one file; a request it leaves to the buffered path finds the state as
it was. -/
theorem readDirect_at (hg : (rules root writable k).good g) (unique : UInt64) (declared : ℕ)
    (input output : List Seg) (maxOut : ℕ) :
    KeepsAt (rules root writable k) g (readDirect unique declared input output maxOut)
      fun r g' => r = none → g' = g := by
  unfold readDirect
  refine .get_bind ?_
  split
  · exact .pure hg fun _ => rfl
  · exact ((readInto_keeps _ _ _ _ _).keepsAt hg).weaken fun r _ hr hnone => absurd hnone hr

theorem killAfterDirect_keeps (hk : k.change = true) (node fh : UInt64) (writeFlags : UInt32) :
    Keeps (VirtioFs.rules root writable k) (killAfterDirect node fh writeFlags) fun _ => True := by
  refine .ite (fun _ => ?_) fun _ => .pure trivial
  refine .bind get_keeps fun s _ => ?_
  split
  · refine .bind (clearSuidSgid_keeps hk _).attempt fun r _ => ?_
    split
    · exact .pure trivial
    · exact .bind (invalidateGuestAttr_keeps node) fun _ _ => .pure trivial
  · exact .bind (invalidateGuestAttr_keeps node) fun _ _ => .pure trivial

theorem writeFrom_keeps (hk : k.change = true) (node unique : UInt64) (declared : ℕ)
    (input : List Seg) :
    Keeps (memRules root writable k mem) (writeFrom node unique declared input) fun _ => True := by
  refine .bind get_keepsMem fun g _ => ?_
  split
  · exact .pure trivial
  · refine .bind get_keepsMem fun g' _ => ?_
    refine .bind (?_ : Keeps _ (pwritevRetry _ _ _) fun _ => True) fun r _ => ?_
    · refine .ite (fun _ => .pure trivial) fun _ => ?_
      refine .weaken (Io.ask_keeps fun x => ?_) fun _ _ => trivial
      exact ⟨nofun, fun _ => hk, nofun, nofun⟩
    split
    · exact .pure trivial
    · refine .bind (onDev_keepsMem (killAfterDirect_keeps hk _ _ _)) fun r _ => ?_
      split
      · exact .pure trivial
      · exact .pure trivial

theorem writeDirect_keeps (hk : writable = true → k.change = true) (node unique : UInt64)
    (declared : ℕ) (input : List Seg) :
    Keeps (memRules root writable k mem) (writeDirect node unique declared input) fun _ =>
      True := by
  have hget : Keeps (memRules root writable k mem) (Proc.get : Serve FsGuest) fun g =>
      g.dev.writable = writable := .get fun g hg => hg.1.1.writable_eq
  refine .bind hget fun g hwritable => .ite (fun _ => .pure trivial) fun hw => ?_
  rw [hwritable] at hw
  refine .bind (onDev_keepsMem (tweak_keeps fun s => .dirty s fun _ => rfl)) fun _ _ => ?_
  refine .bind (onDev_keepsMem dropPrepared_keeps) fun _ _ => ?_
  exact writeFrom_keeps (hk (by simpa using hw)) _ _ _ _

theorem handleFuseGathered_apply (unique : UInt64) (input : List Seg) (maxOut : ℕ) (g : FsGuest) :
    handleFuseGathered unique input maxOut g =
      (match gatherBytes g.mem input 0 (totalLen input) with
        | none => pure (.buffered (errorResponse unique .eio))
        | some request => do pure (.buffered (← onDev (VirtioFs.handleFuse request maxOut))) :
        Serve FsReply) g := rfl

/-- A request on the buffered path, gathered from the memory at hand. -/
theorem handleFuseGathered_eq (unique : UInt64) {raw : Bytes} (maxOut : ℕ)
    (hraw : gatherBytes g.mem input 0 (totalLen input) = some raw) :
    handleFuseGathered unique input maxOut g =
      (do pure (FsReply.buffered (← onDev (VirtioFs.handleFuse raw maxOut))) : Serve FsReply)
        g := by
  rw [handleFuseGathered_apply, hraw]

/-- The request is refused for its length, or is one the kind allows and meets what it needs. -/
def Admits (writable : Bool) (k : Kind) (s : VirtioFs) (raw : Bytes) : Prop :=
  Malformed raw ∨ VirtioFs.Serves writable k (requestOp raw) (requestPayload raw) ∧
    Meets k (requestOp raw) (requestNode raw) (requestPayload raw) s

theorem Admits.spare {s s' : VirtioFs} {raw : Bytes} (h : Admits writable k s raw)
    (hspare : Spare s s') : Admits writable k s' raw :=
  h.imp_right fun h => ⟨h.1, Spared.spare s s' hspare h.2⟩

theorem handleFuseGathered_at (hg : (rules root writable k).good g) (unique : UInt64)
    (input : List Seg) (maxOut : ℕ)
    (h : ∀ raw, gatherBytes g.mem input 0 (totalLen input) = some raw →
      Admits writable k g.dev raw) :
    KeepsAt (rules root writable k) g (handleFuseGathered unique input maxOut) fun _ _ => True := by
  unfold handleFuseGathered
  refine .get_bind ?_
  split
  · exact .pure hg trivial
  · next raw hraw =>
    have hfuse : KeepsAt (VirtioFs.rules root writable k) g.dev (handleFuse raw maxOut)
        fun _ _ => True := by
      obtain hmal | ⟨hserves, hroom⟩ := h raw hraw
      · exact (handleFuse_malformed hmal maxOut).keepsAt hg
      · exact handleFuse_keeps raw maxOut hserves g.dev hg hroom
    exact (onDev_at (dev_at hfuse)).bind fun _ g' hg' _ _ => .pure hg' trivial

/-- What is left to the buffered path is the same request, and finds the same handles. -/
theorem tryDirect_at (hg : (rules root writable k).good g) {header : Bytes}
    (input output : List Seg) (maxOut : ℕ)
    (hwrite : requestOp header = some .write → writable = true → k.change = true) :
    KeepsAt (rules root writable k) g (tryDirect header input output maxOut)
      fun r g' => r = none → g'.mem = g.mem ∧ Spare g.dev g'.dev := by
  unfold tryDirect
  extract_lets declared unique
  split
  · refine (readDirect_at hg _ _ _ _ _).weaken fun r g' h hnone => ?_
    rw [h hnone]
    exact ⟨rfl, .refl _⟩
  · next hop =>
    exact (spareMem_at (writeDirect_keeps (k := k.spare) (hwrite hop) _ _ _ _) hg).weaken
      fun r g' h _ => h.2
  · exact .pure hg fun _ => ⟨rfl, .refl _⟩

theorem handleFuseDesc_apply (input output : List Seg) (maxOut : ℕ) (g : FsGuest) :
    handleFuseDesc input output maxOut g =
      (match gatherBytes g.mem input 0 inHeaderLen with
        | none => pure (.buffered (errorResponse 0 .eio))
        | some header => tryDirect header input output maxOut >>= afterDirect header input maxOut :
        Serve FsReply) g := rfl

theorem handleFuseDesc_eq {header : Bytes} (output : List Seg) (maxOut : ℕ)
    (h : gatherBytes g.mem input 0 inHeaderLen = some header) :
    handleFuseDesc input output maxOut g =
      (tryDirect header input output maxOut g).bind
        (Proc.next (afterDirect header input maxOut)) := by
  rw [handleFuseDesc_apply, h]
  rfl

theorem tryDirect_write {header : Bytes} (output : List Seg) (maxOut : ℕ)
    (hop : requestOp header = some .write) :
    tryDirect header input output maxOut =
      writeDirect ((getU64 header 16).getD 0) ((getU64 header 8).getD 0)
        ((getU32 header 0).getD 0).toNat input := by
  unfold tryDirect
  rw [show Opcode.decode _ = _ from hop]

/-- Neither direct path takes a request that is not a READ, nor a WRITE the export refuses. -/
theorem handleFuseDesc_buffered {header : Bytes} (output : List Seg) (maxOut : ℕ)
    (hheader : gatherBytes g.mem input 0 inHeaderLen = some header)
    (hread : requestOp header ≠ some .read)
    (hwrite : requestOp header = some .write → g.dev.writable = false) :
    handleFuseDesc input output maxOut g =
      handleFuseGathered ((getU64 header 8).getD 0) input maxOut g := by
  have htry : tryDirect header input output maxOut g = .ret (.ok none, g) := by
    generalize hm : tryDirect header input output maxOut = m
    unfold tryDirect at hm
    dsimp only at hm
    split at hm <;> subst hm
    · next hdecode => exact absurd hdecode hread
    · next hdecode =>
      show (if !g.dev.writable then pure none else _ : Serve (Option FsReply)) g = _
      rw [hwrite hdecode]
      rfl
    · rfl
  rw [handleFuseDesc_eq output maxOut hheader, htry]
  rfl

/-- **A request, whichever path it takes.** -/
theorem handleFuseDesc_at (hg : (rules root writable k).good g) (output : List Seg) (maxOut : ℕ)
    (hwrite : ∀ header, gatherBytes g.mem input 0 inHeaderLen = some header →
    requestOp header = some .write → writable = true → k.change = true)
    (hreq : ∀ raw, gatherBytes g.mem input 0 (totalLen input) = some raw →
      Admits writable k g.dev raw) :
    KeepsAt (rules root writable k) g (handleFuseDesc input output maxOut) fun _ _ => True := by
  unfold handleFuseDesc
  refine .get_bind ?_
  split
  · exact .pure hg trivial
  · next header hheader =>
    refine (tryDirect_at hg input output maxOut (hwrite header hheader)).bind fun r g₁ hg₁ _ h => ?_
    cases r with
    | some reply => exact .pure hg₁ trivial
    | none =>
      -- the request is gathered from the memory it was looked at in
      obtain ⟨hmem, hspare⟩ := h rfl
      refine handleFuseGathered_at hg₁ _ input maxOut fun raw hraw => ?_
      rw [hmem] at hraw
      exact (hreq raw hraw).spare hspare

theorem getAny_keeps : Safe root writable k (Proc.get : Serve FsGuest) :=
  .get fun _ _ => trivial

theorem finishBuffered_keeps (i : Fin 2) (head : UInt16) (ds : List Desc) (response : Bytes) :
    Safe root writable k (finishBuffered i head ds response) := by
  refine .bind getAny_keeps fun g _ => ?_
  split
  · refine .bind getAny_keeps fun g _ => ?_
    exact .bind (setMem_keeps _) fun _ _ => .pure trivial
  · refine .bind (onDev_keeps (devStep_keeps fun s => .settled s)) fun _ _ => ?_
    refine .bind getAny_keeps fun g _ => .ite (fun _ => ?_) fun _ => ?_
    · exact .bind (setMem_keeps _) fun _ _ => .pure trivial
    · exact .bind (onDev_keeps (devStep_keeps fun s => .waiters s _)) fun _ _ => .pure trivial

theorem serveAccepted_at (i : Fin 2) (head : UInt16)
    {ds : List Desc}
    (h : ∀ output maxOut, KeepsAt (rules root writable k) g
      (handleFuseDesc (readable ds) output maxOut)
      fun _ _ => True) :
    KeepsAt (rules root writable k) g (serveAccepted i head ds) fun _ _ => True := by
  refine (h _ _).bind fun reply g₁ hg₁ _ _ => ?_
  cases reply with
  | direct n => exact .pure hg₁ trivial
  | buffered response => exact (finishBuffered_keeps i head ds response).keepsAt hg₁

/-- The buffers of a chain the device reads. -/
def chainInput (g : FsGuest) (i : Fin 2) (head : UInt16) : List Seg :=
  readable ((g.dev.transport.queues i).chain g.mem head).1

/-- The header of the request a chain carries, and the whole of it. -/
def askedHeader (g : FsGuest) (i : Fin 2) (head : UInt16) : Option Bytes :=
  gatherBytes g.mem (g.chainInput i head) 0 inHeaderLen

def askedWhole (g : FsGuest) (i : Fin 2) (head : UInt16) : Option Bytes :=
  gatherBytes g.mem (g.chainInput i head) 0 (totalLen (g.chainInput i head))

/-- Whether the chain at `head` is one that is served. -/
def accepts (g : FsGuest) (i : Fin 2) (head : UInt16) : Bool :=
  chainAccepted g.mem ((g.dev.transport.queues i).chain g.mem head).1
    ((g.dev.transport.queues i).chain g.mem head).2

theorem inHeaderLen_le_of_accepts {i : Fin 2} {head : UInt16} (h : g.accepts i head = true) :
    inHeaderLen ≤ totalLen (g.chainInput i head) := by
  simp only [accepts, chainAccepted, Bool.and_eq_true, decide_eq_true_eq] at h
  exact h.1.2

theorem handleChain_eq (g : FsGuest) (i : Fin 2) (head : UInt16) :
    handleChain i head g =
      if g.accepts i head then
        serveAccepted i head ((g.dev.transport.queues i).chain g.mem head).1 g
      else .ret (.ok (some 0), g) := by
  show (if !g.accepts i head then pure (some 0)
    else serveAccepted i head ((g.dev.transport.queues i).chain g.mem head).1 :
      Serve (Option UInt32)) g = _
  cases g.accepts i head with
  | true => rfl
  | false => rfl

/-- A chain, with the request it carries as it is found there. -/
theorem handleChain_at (hg : (rules root writable k).good g) {i : Fin 2} {head : UInt16}
    (h : g.accepts i head = true → ∀ output maxOut, KeepsAt (rules root writable k) g
      (handleFuseDesc (g.chainInput i head) output maxOut) fun _ _ => True) :
    KeepsAt (rules root writable k) g (handleChain i head) fun _ _ => True := by
  unfold KeepsAt
  rw [handleChain_eq]
  split
  · next haccepts => exact serveAccepted_at i head (h haccepts)
  · exact ⟨hg, .refl, fun _ _ => trivial⟩

theorem pushUsed_keeps (i : Fin 2) (head : UInt16) (used : UInt32) :
    Safe root writable k (pushUsed i head used) :=
  .bind getAny_keeps fun _ _ => setMem_keeps _

theorem completeWaiter_keeps (w : LockWaiter) (answer : Except Errno Unit) :
    Safe root writable k (completeWaiter w answer) := by
  unfold completeWaiter
  refine .whenThen (fun _ => onDev_keeps (devStep_keeps fun s =>
    .change (.tweak (.notePosixLock s w.fh w.call)))) ?_
  refine .bind getAny_keeps fun g _ => .bind (setMem_keeps _) fun _ _ => ?_
  exact .bind (pushUsed_keeps _ _ _) fun _ _ =>
    onDev_keeps (devStep_keeps fun s => .registers s _ _)

theorem retryWaiter_keeps (w : LockWaiter) : Safe root writable k (retryWaiter w) := by
  refine .bind getAny_keeps fun g _ => .ite (fun _ => .pure trivial) fun _ => ?_
  split
  · exact completeWaiter_keeps w _
  · refine .bind (Io.tryLock_keeps _ _) fun r _ => ?_
    split
    · exact completeWaiter_keeps w _
    · exact completeWaiter_keeps w _
    · exact onDev_keeps (devStep_keeps fun s => .waiters s _)

/-- Repeating the parked locks makes lock calls only. -/
theorem retryLockWaiters_keeps : Safe root writable k retryLockWaiters := by
  refine .bind getAny_keeps fun g _ => .bind (onDev_keeps (devStep_keeps fun s => .waiters s []))
    fun _ _ => ?_
  refine .bind (.forEach fun w _ => retryWaiter_keeps w) fun _ _ => ?_
  exact .bind getAny_keeps fun _ _ => .pure trivial

end

end FsGuest
