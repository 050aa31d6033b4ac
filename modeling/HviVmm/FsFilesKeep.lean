/-
The requests about open files keep inside the export.

OPEN and RELEASE change the tree without `requireWritable`: an OPEN that truncates or clears
set-id bits, and a RELEASE of a tmpfile the guest never linked.  Their lemmas say exactly when
a call that changes the tree must be allowed.  SYNCFS needs a kind that may sync.

A handle is made for a node that is known, where there is room for it: OPEN asks the budget unless
a parked descriptor is taken back, CREATE and TMPFILE do not ask.
-/
import HviVmm.FsNamesKeep

open CallPrograms Fuse Relation

namespace VirtioFs

open Proc

section

variable {root : PathBuf} {writable : Bool} {k : Kind} {s : VirtioFs}
variable {path : PathBuf} {file : Fd} {temporaryPath : Option PathBuf} {openFlags flags : UInt32}
  {node : UInt64}

/-! ### Directories -/

theorem socketName_component {p : PathBuf} {name : Name} (hp : PathBuf.Under root p)
    (hpath : PathBuf.Under root path) (hparent : p.parent = some path)
    (hname : p.fileName = some name) : IsComponent name := by
  have hlast := PathBuf.fileName_eq_some hname
  have hdrop : p.dropLast = path := by
    unfold PathBuf.parent at hparent
    split at hparent
    · cases hparent
    · exact Option.some.inj hparent
  rw [hdrop] at hlast
  exact hp.of_append hpath hlast name (by simp)

theorem assembleEntries_ok {live : ℕ → Prop} (hs : s.Good root writable live)
    (hpath : PathBuf.Under root path) {entries : List DirEntryInfo}
    (hentries : ∀ e ∈ entries, IsComponent e.name) :
    ListingOk (s.assembleEntries path entries) := by
  intro e he
  have hmem := (List.mem_insertionSort _).mp he
  rcases List.mem_append.mp hmem with h | h
  · exact hentries e h
  · obtain ⟨⟨p, socket⟩, hp, heq⟩ := List.mem_filterMap.mp h
    split at heq
    · next hparent =>
      obtain ⟨name, hname, rfl⟩ := Option.map_eq_some_iff.mp heq
      exact socketName_component (hs.sockets p socket (HashMap.mem_entries_iff.mp hp)) hpath
        hparent hname
    · cases heq

theorem dirEntries_keeps (h : PathBuf.Under root path) :
    Keeps (rules root writable k) (dirEntries path) ListingOk := by
  refine .bind (relativeOfPath_keeps h) fun relative hrel => ?_
  refine .bind (onDirs_keeps (DirCache.dirFdOwned_keeps hrel)) fun fd _ => ?_
  refine .bind (Io.readDirAt_keeps fd) fun entries hentries => ?_
  exact .bind get_keeps fun s hs => .pure (assembleEntries_ok hs h hentries)

theorem insertDirHandle_keeps (hmakes : k.makes = true) (h : PathBuf.Under root path) :
    KeepsWhen root writable k (Roomy k) (insertDirHandle path) := by
  refine .bind (relativeOfPath_keeps h) fun relative hrel => ?_
  refine .bind (onDirs_keeps (DirCache.dirFdOwned_keeps hrel)) fun file hfile => ?_
  refine .bind (dirEntries_keeps h) fun entries hentries => ?_
  intro s hs hroom
  refine .get_bind (change_bind hs (.effect hmakes ?_) fun hgood => .pure hgood trivial)
  exact .insertDirHandle s ⟨hfile, hentries⟩ hroom

theorem releaseDir_keeps (hmakes : k.makes = true) (input : Bytes) :
    Safe root writable k (releaseDir input) := by
  refine .bind (u64At_keeps input 0) fun fh _ => .ite (fun _ => .pure trivial) fun _ => ?_
  refine .bind get_keeps fun s _ => .require fun _ => ?_
  exact .bind (effect_keeps hmakes fun s => .releaseDir s fh) fun _ _ => .pure trivial

/-! ### Opening -/

theorem openReply_keeps (fh : UInt64) : Safe root writable k (openReply fh) :=
  .bind get_keeps fun _ _ => .pure trivial

/-- A handle is made for a node that is known, where there is room. -/
theorem addHandle_keeps (hmakes : k.makes = true) (hfile : k.files file) (canWrite : Bool)
    (openFlags : UInt32) (attrs : HandleAttrs) (path : PathBuf) (node : UInt64)
    (htmp : ∀ p ∈ temporaryPath, PathBuf.Under root p ∧ writable = true) :
    KeepsWhen root writable k (Ready k node)
      (addHandle file canWrite openFlags attrs path temporaryPath node) := by
  intro s hs hready
  have hstep : Change root writable k s (s.insertHandle
      { file, writable := canWrite, openFlags, attrs, path, temporaryPath, node,
        locked := false }).1 :=
    .effect hmakes (.insertHandle s hready.1 hfile htmp hready.2)
  exact .modifyGet (hstep.good_rules hs) (.single hstep) trivial

theorem killOnOpen_keeps (node : UInt64) (file : Fd)
    (hk : has openFlags fuseOpenKillSuidgid = true → k.change = true) :
    Safe root writable k (killOnOpen node file openFlags) := by
  refine .ite (fun hkill => ?_) fun _ => .pure trivial
  refine .bind (clearSuidSgid_keeps (hk hkill) file) fun _ _ => ?_
  exact invalidateGuestAttr_keeps node

/-- Whether an OPEN changes the file it opens. -/
def openChanges (flags openFlags : UInt32) : Bool :=
  has flags linuxOTrunc || has openFlags fuseOpenKillSuidgid

theorem handleOfNode_lookup {fh : UInt64} {handle : FileHandle}
    (h : s.handleOfNode node = some (fh, handle)) : s.handles.lookup fh = some handle := by
  unfold handleOfNode at h
  extract_lets ofNode at h
  have hmem : (fh, handle) ∈ ofNode := by
    cases hfound : ofNode.find? fun e => e.2.writable with
    | some e =>
      rw [hfound] at h
      cases h
      exact List.mem_of_find?_eq_some hfound
    | none =>
      rw [hfound] at h
      exact List.mem_of_mem_head? h
  obtain ⟨e, he, heq⟩ := List.mem_map.mp (List.mem_of_mem_filter hmem)
  cases heq
  exact HashMap.mem_entries_iff.mp he

theorem isOrphan_known (h : s.isOrphan node = true) : s.Known node := by
  unfold isOrphan at h
  split at h
  · next hn => exact .inl (by rw [hn]; rfl)
  · cases h

theorem openOrphan_at (hmakes : k.makes = true) (hs : (rules root writable k).good s)
    (horphan : s.isOrphan node = true) (directory : Bool)
    (hchange : directory = false → openChanges flags openFlags = true → k.change = true) :
    KeepsAt (rules root writable k) s (openOrphan node flags openFlags directory) fun _ _ =>
      True := by
  refine .get_bind ?_
  split
  · exact .throw hs _
  · next hdir =>
    have hk := hchange (by simpa using hdir)
    split
    · exact .throw hs _
    · next hroom =>
      push Not at hroom
      refine .orThrow_bind hs fun e he => ?_
      have hfile : k.files e.2.file := hs.2.2.handles _ _ (handleOfNode_lookup he)
      show KeepsAt _ s (if _ then _ else _) _
      split
      · exact .throw hs _
      · have hready : Ready k node s := ⟨isOrphan_known horphan, .inr hroom⟩
        refine KeepsWhen.bind (Io.dupCloexec_keeps e.2.file) (fun file hdup => ?_) s hs hready
        refine .whenThen (fun htrunc => Io.setLen_keeps (k := k.spare) ?_ _ _) ?_
        · exact hk (by simp [openChanges, htrunc])
        refine .bind (killOnOpen_keeps node file fun hkill => hk (by simp [openChanges, hkill]))
          fun _ _ => .bind (Io.statOfFd_keeps file) fun stat _ => ?_
        refine .andThen ?_ openReply_keeps
        exact addHandle_keeps hmakes (hdup.2 hfile) _ flags _ _ node fun p hp => by cases hp

theorem takeParked_keeps (node : UInt64) (flags : UInt32) :
    Keeps (rules root writable k) (takeParked node flags) fun r => ∀ e ∈ r, k.files e.1 := by
  have hdrop : Safe root writable k (Proc.modify (dropParked · node) : Fs Unit) :=
    tweak_keeps fun s => .sheds (s.dropParked_sheds node)
  have hnone : Keeps (rules root writable k) (pure none : Fs (Option (Fd × HandleAttrs)))
      fun r => ∀ e ∈ r, k.files e.1 := .pure fun e he => by cases he
  refine .bind get_keeps fun s _ => .ite (fun _ => hnone) fun _ => ?_
  refine .bind (R := fun _ => True) (Keeps.weaken (Keeps.attempt (R := fun _ => True) ?_)
    fun _ _ => trivial) fun r _ => ?_
  · exact .bind (entryAt_keeps node) fun e he => Io.statAt_keeps he.1 he.2
  · split
    · exact .bind hdrop fun _ _ => hnone
    · refine .bind getHeld_keeps fun s hs => ?_
      split
      · exact hnone
      · next parked hparked =>
        refine .bind hdrop fun _ _ => .ite (fun _ => hnone) fun _ => .pure fun e he => ?_
        cases he
        exact hs.parked node parked hparked

theorem openByName_keeps (node : UInt64) (hk : has flags linuxOTrunc = true → k.change = true) :
    Keeps (rules root writable k) (openByName node flags) fun r => k.files r.1 := by
  refine .bind (entryAt_keeps node) fun e he => .bind (Io.statAt_keeps he.1 he.2) fun entry _ => ?_
  refine .guard fun _ => .guard fun _ => ?_
  have hchange : false = true ∨ has flags linuxOTrunc = true → k.change = true :=
    fun h => hk (h.resolve_left Bool.noConfusion)
  refine .bind (Io.openHostFileAt_keeps he.1 he.2 hchange).attempt fun r _ => ?_
  split
  · exact .bind (Io.openFailureErrnoAt_keeps _ he.1 he.2) fun err _ => .throw err
  · refine .bind (Io.statOfFd_files _) fun stat hstat => .guard fun _ => ?_
    exact .ite (fun _ => .throw _) fun hfile => .pure (hstat (by simpa using hfile))

/-- **The budget is asked**: what passes has room. -/
theorem admitHandle_at (hs : (rules root writable k).good s) :
    KeepsAt (rules root writable k) s admitHandle fun _ t => t.openHandleCount < t.handleLimit := by
  refine change_bind hs (.tweak (.sheds (makeHandleRoom_sheds _ s))) fun hgood => .get_bind ?_
  split
  · exact .throw hgood _
  · next hroom => exact .pure hgood (not_le.mp hroom)

theorem requireDirectory_keeps (h : PathBuf.Under root path) :
    Safe root writable k (requireDirectory path) :=
  .bind (statInExport_keeps h) fun _ _ => .guard fun _ => .pure trivial

/-- A descriptor is taken back only where one is parked. -/
theorem reuseParked_at (node : UInt64) (flags openFlags : UInt32) (directory : Bool)
    (hs : (rules root writable k).good s) :
    KeepsAt (rules root writable k) s (reuseParked node flags openFlags directory) fun r _ =>
      (∀ e ∈ r, k.files e.1) ∧
        (r.isSome = true → directory = false ∧ (s.parked.lookup node).isSome = true) := by
  refine .get_bind ?_
  split
  · next hreuse =>
    simp only [Bool.and_eq_true, Bool.not_eq_true'] at hreuse
    cases hparked : s.parked.lookup node with
    | some p =>
      exact ((takeParked_keeps node flags).keepsAt hs).weaken fun r _ hr =>
        ⟨hr, fun _ => ⟨hreuse.1, rfl⟩⟩
    | none =>
      refine .get_bind ?_
      rw [if_pos (by rw [hparked]; nofun)]
      exact .pure hs ⟨fun e he => (by cases he), fun h => by cases h⟩
  · exact .pure hs ⟨fun e he => (by cases he), fun h => by cases h⟩

theorem openOrReuse_keeps (node : UInt64) {reused : Option (Fd × HandleAttrs)}
    (hreused : ∀ e ∈ reused, k.files e.1) (hk : has flags linuxOTrunc = true → k.change = true) :
    Keeps (rules root writable k) (openOrReuse node flags reused) fun r => k.files r.1 := by
  cases reused with
  | none => exact openByName_keeps node hk
  | some r => exact .pure (hreused r rfl)

/-- An OPEN of a file: the descriptor that is reused, or one the budget has room for. -/
theorem openFile_keeps (hmakes : k.makes = true) (node : UInt64)
    {reused : Option (Fd × HandleAttrs)} (hreused : ∀ e ∈ reused, k.files e.1) (path : PathBuf)
    (hk : openChanges flags openFlags = true → k.change = true) :
    KeepsWhen root writable k (Ready k node) (do
      let (file, attrs) ← openOrReuse node flags reused
      killOnOpen node file openFlags
      openReply (← addHandle file (has flags linuxOAccmode) flags attrs path none node)) := by
  refine .bind (openOrReuse_keeps node hreused fun htrunc => hk (by simp [openChanges, htrunc]))
    fun e hfile => ?_
  refine .bind (killOnOpen_keeps node _ fun hkill => hk (by simp [openChanges, hkill])) fun _ _ =>
    ?_
  refine .andThen ?_ openReply_keeps
  exact addHandle_keeps hmakes hfile _ flags _ path node fun p hp => by cases hp

/-- An OPEN that would take back a parked descriptor finds room, since it does not ask. -/
def Reopens (k : Kind) (node : UInt64) (directory : Bool) (s : VirtioFs) : Prop :=
  directory = false → (s.parked.lookup node).isSome = true → Roomy k s

theorem Reopens.spare {directory : Bool} {s' : VirtioFs} (h : Spare s s')
    (hs : Reopens k node directory s) : Reopens k node directory s' := by
  intro hdir hparked
  obtain ⟨p, hp⟩ := Option.isSome_iff_exists.mp hparked
  exact h.roomy (hs hdir (by rw [h.parked node p hp]; rfl))

instance (k : Kind) (node : UInt64) (directory : Bool) : Spared (Reopens k node directory) :=
  ⟨fun _ _ h hs => hs.spare h⟩

instance (k : Kind) (node : UInt64) (directory : Bool) :
    Spared fun s => s.Known node ∧ Reopens k node directory s :=
  ⟨fun _ _ h hs => ⟨h.known node hs.1, hs.2.spare h⟩⟩

theorem openNamed_keeps (hmakes : k.makes = true) (node : UInt64) (directory : Bool)
    (hchange : directory = false → openChanges flags openFlags = true → k.change = true) :
    KeepsWhen root writable k (Reopens k node directory)
      (openNamed node flags openFlags directory) := by
  intro s hs hreopens
  refine (spare_at (nodePath_at node hs)).bind fun path t ht _ h => ?_
  obtain ⟨⟨hpath, hknown⟩, hspare⟩ := h
  refine KeepsWhen.whenThen (P := fun s => s.Known node ∧ Reopens k node directory s)
    (fun _ => requireDirectory_keeps hpath) ?_ t ht ⟨hknown, hreopens.spare hspare⟩
  clear! s t
  intro s hs hstart
  refine (spare_at (reuseParked_at node flags openFlags directory hs)).bind fun reused t ht _ h =>
    ?_
  obtain ⟨⟨hfiles, hparked⟩, hspare⟩ := h
  cases reused with
  | some r =>
    obtain ⟨rfl, hsome⟩ := hparked rfl
    exact openFile_keeps hmakes node hfiles path (hchange rfl) t ht
      ⟨hspare.known node hstart.1, hspare.roomy (hstart.2 rfl hsome)⟩
  | none =>
    -- nothing was taken back, and the budget is asked
    refine (spare_at (admitHandle_at ht)).bind fun _ u hu _ h => ?_
    obtain ⟨hroom, hspare'⟩ := h
    show KeepsAt _ u (if _ then _ else _) _
    split
    · exact (insertDirHandle_keeps hmakes hpath).andThen openReply_keeps u hu (.inr hroom)
    · next hdir =>
      exact openFile_keeps hmakes node hfiles path (hchange (by simpa using hdir)) u hu
        ⟨(hspare.trans hspare').known node hstart.1, .inr hroom⟩

/-- An OPEN needs a call that changes the tree only to truncate or to clear set-id bits, which
it does only on an export that is writable, and an OPENDIR never. -/
theorem openNode_keeps (hmakes : k.makes = true) (node : UInt64) (input : Bytes) (directory : Bool)
    (hk : ∀ flags openFlags, getU32 input 0 = some flags → getU32 input 4 = some openFlags →
      directory = false → openChanges flags openFlags = true → writable = true → k.change = true) :
    KeepsWhen root writable k (Reopens k node directory) (openNode node input directory) := by
  refine .bind (.orThrow fun flags hflags => hflags) fun flags hflags => ?_
  refine .bind (.orThrow fun openFlags hopen => hopen) fun openFlags hopen => ?_
  intro s hs hreopens
  refine .get_bind ?_
  split
  · exact .throw hs _
  · next hwants =>
    have hchange : directory = false → openChanges flags openFlags = true → k.change = true := by
      intro hdir hchanges
      refine hk flags openFlags hflags hopen hdir hchanges ?_
      rw [hs.1.writable_eq] at hwants
      have hwrite : openWantsWrite flags openFlags = true := by
        simp only [openChanges, Bool.or_eq_true] at hchanges
        rcases hchanges with h | h
        · simp [openWantsWrite, h]
        · simp [openWantsWrite, h]
      simpa [hwrite] using hwants
    split
    · next horphan => exact openOrphan_at hmakes hs horphan directory hchange
    · exact openNamed_keeps hmakes node directory hchange s hs hreopens

/-- The end of CREATE and TMPFILE: the node is remembered and a handle made for it. -/
theorem newHandle_keeps (hmakes : k.makes = true) (hpath : PathBuf.Under root path) (stat : Stat)
    (hfile : k.files file) (canWrite : Bool) (flags : UInt32)
    (htmp : ∀ p ∈ temporaryPath, PathBuf.Under root p ∧ writable = true)
    {reply : Bytes → UInt64 → Fs Bytes}
    (hreply : ∀ out fh, Safe root writable k (reply out fh)) :
    KeepsWhen root writable k (Roomy k) (do
      let node ← nodeFor path stat
      Proc.modify (rememberLookup · node)
      let out ← entryOut node stat
      let fh ← addHandle file canWrite flags (HandleAttrs.of stat) path temporaryPath node
      reply out fh) := by
  intro s hs hroom
  refine (spare_at (nodeFor_at stat hpath hs)).bind fun node t ht _ h => ?_
  obtain ⟨hknown, hspare⟩ := h
  have hstep : Change root writable k.spare t (t.rememberLookup node) := .remember t hknown
  refine change_bind ht hstep.spare.1 fun hgood => ?_
  have hready : Ready k node (t.rememberLookup node) :=
    ⟨hstep.spare.2.known node hknown, (hspare.trans hstep.spare.2).roomy hroom⟩
  refine KeepsWhen.bind (entryOut_keeps node stat) (fun out _ => .andThen ?_ (hreply out)) _ hgood
    hready
  exact addHandle_keeps hmakes hfile canWrite flags _ path node htmp

theorem create_mutating (parent : UInt64) (input : Bytes) (context : RequestContext) :
    Mutating root writable Roomy (create parent input context) := by
  refine ⟨_, rfl, fun k hchange hmakes _ => ?_⟩
  have hk : k.spare.change = true := hchange
  refine .bind (u32At_keeps input 0) fun flags _ => .bind (u32At_keeps input 4) fun mode _ => ?_
  refine .bind (u32At_keeps input 12) fun openFlags _ => .bind (lift_keeps _) fun name _ => ?_
  refine .bind (childPath_keeps parent name) fun path hpath => ?_
  refine .bind (atPath_keeps hpath) fun e he => ?_
  refine .bind (Io.openHostFileAt_keeps he.1 he.2 fun _ => hk) fun file hfile => ?_
  refine .bind (initializeAt_keeps hk mode context hpath) fun _ _ => ?_
  refine .whenThen (fun _ => clearSuidSgid_keeps hk file) ?_
  refine .bind (Io.statOfFd_keeps file) fun stat _ => ?_
  exact newHandle_keeps hmakes hpath stat (hfile rfl) _ flags (fun p hp => by cases hp)
    fun out fh => .bind (openReply_keeps fh) fun _ _ => .pure trivial

theorem slash_not_mem_decimal (n : ℕ) : slash ∉ decimal n := by
  intro h
  obtain ⟨c, hc, heq⟩ := List.mem_map.mp h
  have hdigit := Nat.isDigit_of_mem_toDigits (by decide) (by decide) hc
  simp only [Char.isDigit, Bool.and_eq_true, decide_eq_true_eq] at hdigit
  have hlow : 48 ≤ c.toNat := hdigit.1
  have hhigh : c.toNat ≤ 57 := hdigit.2
  have hnat := congrArg UInt8.toNat heq
  rw [UInt8.toNat_ofNat'] at hnat
  have hslash : slash.toNat = 47 := rfl
  omega

theorem tmpfileName_component (pid : ℕ) (id : UInt64) : IsComponent (tmpfileName pid id) := by
  refine ⟨by simp [tmpfileName], ?_, ?_, ?_⟩
  · simp only [tmpfileName, List.mem_append, not_or]
    exact ⟨⟨⟨by decide, slash_not_mem_decimal pid⟩, by decide⟩, slash_not_mem_decimal id.toNat⟩
  · simp [tmpfileName, dot]
  · simp [tmpfileName, dotdot]

theorem tmpfile_mutating (parent : UInt64) (input : Bytes) (context : RequestContext) :
    Mutating root writable Roomy (tmpfile parent input context) := by
  refine ⟨_, rfl, fun k hchange hmakes hw => ?_⟩
  have hk : k.spare.change = true := hchange
  refine .bind (u32At_keeps input 0) fun flags _ => .bind (u32At_keeps input 4) fun mode _ => ?_
  refine .bind (nodePath_keeps parent) fun parentPath hparent => .bind get_keeps fun s _ => ?_
  refine .bind (tweak_keeps fun s => .tmpfile s) fun _ _ => ?_
  have hpath := hparent.join (tmpfileName_component s.process.pid s.nextTmpfile)
  refine .bind (atPath_keeps hpath) fun e he => ?_
  refine .bind (Io.openHostFileAt_keeps he.1 he.2 fun _ => hk) fun file hfile => ?_
  refine .bind (initializeAt_keeps hk mode context hpath) fun _ _ => ?_
  refine .bind (Io.statOfFd_keeps file) fun stat _ => ?_
  refine newHandle_keeps hmakes hpath stat (hfile rfl) true flags (fun p hp => ?_)
    fun out fh => .pure trivial
  cases hp
  exact ⟨hpath, hw⟩

/-! ### Closing -/

theorem removeTemporary_keeps (h : ∀ p ∈ temporaryPath, PathBuf.Under root p ∧ k.change = true) :
    Safe root writable k (removeTemporary temporaryPath) := by
  cases temporaryPath with
  | none => exact .pure trivial
  | some path =>
    obtain ⟨hpath, hk⟩ := h path rfl
    refine .bind (relativeOfPath_keeps hpath) fun relative hrel => ?_
    refine .bind (atRelative_keeps hrel).attempt fun r hr => ?_
    split
    · exact .pure trivial
    · exact .pure trivial
    · exact .throw _
    · next dirfd name =>
      obtain ⟨hdir, hname⟩ := hr _ rfl
      refine .bind (Io.unlinkAt_keeps hk hdir hname false).attempt fun r _ => ?_
      split
      · exact .guard fun _ => .pure trivial
      · exact .pure trivial

theorem unlockFlock_keeps (file : Fd) : Safe root writable k (unlockFlock file) :=
  Io.lookFile_keeps rfl rfl rfl nofun

theorem attrsToPark_keeps (handle : FileHandle) : Safe root writable k (attrsToPark handle) := by
  refine .ite (fun _ => ?_) fun _ => .pure trivial
  refine .bind (Io.statOfFd_keeps handle.file).attempt fun r _ => ?_
  split
  · exact .pure trivial
  · exact .pure trivial

theorem parkDescriptor_steps (hmakes : k.makes = true) (s : VirtioFs) (node : UInt64)
    (flags : UInt32) (attrs : HandleAttrs) (hfile : k.files file) :
    ReflTransGen (Change root writable k) s (s.parkDescriptor node flags attrs file) := by
  unfold parkDescriptor
  split
  · exact .refl
  · next hnode =>
    -- the node is there and has a path, and descriptors that go leave it so
    obtain ⟨n, hn, hpaths⟩ : ∃ n, s.nodes.lookup node = some n ∧ n.paths ≠ [] := by
      unfold isOrphan at hnode
      cases hn : s.nodes.lookup node with
      | none => simp [hn] at hnode
      | some n => exact ⟨n, rfl, by simpa [hn] using hnode⟩
    extract_lets s₁
    have hdrop : Sheds s s₁ := s.dropParked_sheds node
    split
    · exact .single (.tweak (.sheds hdrop))
    · have hroom := hdrop.trans (makeParkedRoom_sheds s₁.parked.len s₁)
      split
      · next s₂ he => exact .single (.tweak (.sheds (by simpa [he] using hroom)))
      · next s₂ he =>
        rw [he] at hroom
        have hn₂ : s₂.nodes.lookup node = some n := by
          cases hroom
          exact hn
        refine .head (.tweak (.sheds hroom)) (.head (.effect hmakes ?_)
          (.single (.tweak (.sheds (compactParkedOrder_sheds _)))))
        exact .park s₂ hn₂ hpaths hfile

theorem parkReleased_keeps (hmakes : k.makes = true) {handle : FileHandle}
    (hfile : k.files handle.file) (flags : UInt32) :
    Safe root writable k (parkReleased handle flags) := by
  refine .bind get_keeps fun s _ => .ite (fun _ => ?_) fun _ => .pure trivial
  refine .bind (attrsToPark_keeps handle) fun attrs _ => ?_
  exact modify_keeps fun s => s.parkDescriptor_steps hmakes _ _ _ hfile

/-- **A RELEASE** changes the tree only if the handle has a tmpfile. -/
theorem release_at (hmakes : k.makes = true) (hs : (rules root writable k).good s) {input : Bytes}
    (h : ∀ fh handle, getU64 input 0 = some fh → s.handles.lookup fh = some handle →
      handle.temporaryPath.isSome = true → k.change = true) :
    KeepsAt (rules root writable k) s (release input) fun _ _ => True := by
  refine .orThrow_bind hs fun fh hfh => .get_bind (.orThrow_bind hs fun handle hhandle => ?_)
  have htmp : ∀ p ∈ handle.temporaryPath, PathBuf.Under root p ∧ k.change = true := fun p hp =>
    ⟨(hs.1.temporaries fh handle hhandle p hp).1, h fh handle hfh hhandle (Option.isSome_of_mem hp)⟩
  refine change_bind hs (.effect hmakes (.release s hhandle)) fun hgood => Keeps.keepsAt ?_ hgood
  refine .whenThen (fun _ => unlockFlock_keeps _) (.ite (fun _ => ?_) fun _ => ?_)
  · exact .bind (removeTemporary_keeps htmp) fun _ _ => .pure trivial
  · exact .bind (parkReleased_keeps hmakes (hs.2.2.handles fh handle hhandle) _) fun _ _ =>
      .pure trivial

theorem flush_keeps (input : Bytes) : Safe root writable k (flush input) :=
  .bind (u64At_keeps input 0) fun _ _ => .bind get_keeps fun _ _ =>
    .guard fun _ => .pure trivial

theorem fsync_keeps (input : Bytes) : Safe root writable k (fsync input) := by
  refine .bind (u64At_keeps input 0) fun fh _ => .bind (u32At_keeps input 8) fun flags _ => ?_
  refine .bind get_keeps fun s _ => .require fun handle => ?_
  exact .bind (Io.syncFile_keeps _ _) fun _ _ => .pure trivial

theorem fsyncDir_keeps (node : UInt64) (input : Bytes) :
    Safe root writable k (fsyncDir node input) := by
  refine .bind (u64At_keeps input 0) fun fh _ => .bind (u32At_keeps input 8) fun flags _ => ?_
  refine .ite (fun _ => ?_) fun _ => ?_
  · refine .bind get_keeps fun s _ => .require fun handle => ?_
    exact .bind (Io.syncFile_keeps _ _) fun _ _ => .pure trivial
  · refine .bind (nodePath_keeps node) fun path hpath => ?_
    refine .bind (relativeOfPath_keeps hpath) fun relative hrel => ?_
    refine .bind (onDirs_keeps (DirCache.dirFdOwned_keeps hrel)) fun fd _ => ?_
    exact .bind (Io.syncFile_keeps _ _) fun _ _ => .pure trivial

theorem syncEach_keeps (fds : List Fd) : Safe root writable k (syncEach fds) := by
  induction fds with
  | nil => exact .pure trivial
  | cons fd fds ih =>
    refine .bind (Io.askPlain_keeps (.syncAll fd) rfl rfl rfl nofun)
      fun synced _ => .bind ih fun rest _ => ?_
    split
    · exact .pure trivial
    · exact .pure trivial

/-- The sync of the volume makes the export clean. -/
theorem syncDirty_keeps (failed : Option Errno)
    (hsync : k.sync = true) (hclean : k.dirtied = false) :
    Safe root writable k (syncDirty failed) := by
  refine .bind get_keeps fun s _ => .ite (fun _ => ?_) fun _ => .pure trivial
  refine .bind (Io.ask_keeps fun x => ?_) fun r _ => ?_
  · exact ⟨nofun, nofun, nofun, fun _ => hsync⟩
  · split
    · refine .bind (tweak_keeps fun s => .dirty s fun hd => ?_) fun _ _ => .pure trivial
      rw [hclean] at hd
      cases hd
    · exact .pure trivial

theorem syncfs_keeps (hsync : k.sync = true) (hclean : k.dirtied = false) :
    Safe root writable k syncfs := by
  refine .bind get_keeps fun s _ => .bind (syncEach_keeps _) fun failed _ => ?_
  refine .bind (syncDirty_keeps failed hsync hclean) fun failed _ => ?_
  split
  · exact .throw _
  · exact .pure trivial

/-! ### Reading and writing -/

theorem read_keeps (node : UInt64) (input : Bytes) (capacity : ℕ) :
    Safe root writable k (read node input capacity) := by
  refine .bind (u64At_keeps input 0) fun fh _ => .bind (u64At_keeps input 8) fun offset _ => ?_
  refine .bind (u32At_keeps input 16) fun requested _ => .bind get_keeps fun s _ => ?_
  split
  · exact Io.readAt_keeps _ _ _
  · refine .ite (fun _ => .guard fun _ => ?_) fun _ => .throw _
    refine .bind (entryAt_keeps node) fun e he => .bind (Io.statAt_keeps he.1 he.2) fun stat _ => ?_
    refine .guard fun _ => ?_
    refine .bind (Io.openHostFileAt_keeps he.1 he.2 fun h => ?_) fun file _ => ?_
    · rcases h with h | h
      · cases h
      · exact absurd h (by decide)
    · exact Io.readAt_keeps _ _ _

theorem killAfterWrite_keeps (hk : k.change = true) (node fh : UInt64) (writeFlags : UInt32) :
    Safe root writable k (killAfterWrite node fh writeFlags) := by
  refine .ite (fun _ => ?_) fun _ => .pure trivial
  refine .bind get_keeps fun s _ => .require fun handle => ?_
  refine .bind (clearSuidSgid_keeps hk handle.file) fun _ _ => ?_
  exact invalidateGuestAttr_keeps node

theorem write_mutating (node : UInt64) (input : Bytes) :
    Mutating root writable (fun _ _ => True) (write node input) := by
  refine mutating_of_keeps fun k hk _ _ => ?_
  refine .bind (u64At_keeps input 0) fun fh _ => .bind (u64At_keeps input 8) fun offset _ => ?_
  refine .bind (u32At_keeps input 16) fun size _ => .bind (u32At_keeps input 20) fun flags _ => ?_
  refine .guard fun _ => .bind get_keeps fun s _ => ?_
  refine .require fun handle => .guard fun _ => ?_
  refine .bind (Io.writeAt_keeps hk _ _ _) fun n _ => ?_
  exact .bind (killAfterWrite_keeps hk node fh flags) fun _ _ => .pure trivial

theorem writeAll_keeps (hk : k.change = true) (file : Fd) (base : UInt64) (fuel written : ℕ)
    (data : Bytes) : Safe root writable k (writeAll file base fuel written data) := by
  induction fuel generalizing written data with
  | zero => exact .pure trivial
  | succ fuel ih =>
    refine .ite (fun _ => .pure trivial) fun _ => ?_
    refine .bind (Io.writeAt_keeps hk _ _ _) fun n _ => ?_
    exact .guard fun _ => ih _ _

theorem copyChunks_keeps (hk : k.change = true) (source target : Fd)
    (sourceOffset targetOffset : UInt64) (requested fuel copied : ℕ) :
    Safe root writable k (copyChunks source target sourceOffset targetOffset requested fuel
      copied) := by
  induction fuel generalizing copied with
  | zero => exact .pure trivial
  | succ fuel ih =>
    refine .ite (fun _ => .pure trivial) fun _ => ?_
    refine .bind (Io.readAt_keeps _ _ _) fun data _ => ?_
    refine .ite (fun _ => .pure trivial) fun _ => ?_
    refine .bind (writeAll_keeps hk target _ _ _ _) fun _ _ => ?_
    exact .ite (fun _ => .pure trivial) fun _ => ih _

theorem copyFileRange_mutating (input : Bytes) :
    Mutating root writable (fun _ _ => True) (copyFileRange input) := by
  refine mutating_of_keeps fun k hk _ _ => ?_
  refine .bind (u64At_keeps input 0) fun sourceFh _ => .bind (u64At_keeps input 8) fun _ _ => ?_
  refine .bind (u64At_keeps input 24) fun targetFh _ => .bind (u64At_keeps input 32) fun _ _ => ?_
  refine .bind (u64At_keeps input 40) fun _ _ => .bind (u64At_keeps input 48) fun flags _ => ?_
  refine .guard fun _ => .bind get_keeps fun s _ => ?_
  refine .require fun source => .bind get_keeps fun s _ => ?_
  refine .require fun target => .guard fun _ => ?_
  refine .bind (Io.statOfFd_keeps _) fun _ _ => .bind (Io.statOfFd_keeps _) fun _ _ => ?_
  refine .guard fun _ => ?_
  exact .bind (copyChunks_keeps hk _ _ _ _ _ _ _) fun _ _ => .pure trivial

theorem zeroChunks_keeps (hk : k.change = true) (file : Fd) (zeroEnd : UInt64) (fuel : ℕ)
    (cursor : UInt64) : Safe root writable k (zeroChunks file zeroEnd fuel cursor) := by
  induction fuel generalizing cursor with
  | zero => exact .pure trivial
  | succ fuel ih =>
    refine .ite (fun _ => .pure trivial) fun _ => ?_
    exact .bind (writeAll_keeps hk file _ _ _ _) fun _ _ => ih _

theorem preallocate_keeps (hk : k.change = true) (file : Fd) (offset length : UInt64) :
    Safe root writable k (preallocate file offset length) := by
  refine .bind (Io.ask_keeps fun x => ⟨nofun, fun _ => hk, nofun, nofun⟩) fun r _ => ?_
  split
  · exact .pure trivial
  · exact Io.changeFile_keeps hk rfl rfl nofun

theorem growTo_keeps (hk : k.change = true) (file : Fd) (endAt : UInt64) :
    Safe root writable k (growTo file endAt) :=
  .bind (Io.statOfFd_keeps file) fun _ _ =>
    .ite (fun _ => Io.setLen_keeps hk _ _) fun _ => .pure trivial

theorem hostFallocate_keeps (hk : k.change = true) (file : Fd) (offset length : UInt64)
    (mode : UInt32) : Safe root writable k (hostFallocate file offset length mode) := by
  refine .guard fun _ => .guard fun _ => ?_
  refine .guard fun _ => .guard fun _ => ?_
  refine .ite (fun _ => .guard fun _ => ?_) fun _ => .ite (fun _ => ?_) fun _ => ?_
  · exact Io.changeFile_keeps hk rfl rfl nofun
  · refine .whenThen (fun _ => .throw _) ?_
    refine .bind (Io.statOfFd_keeps file) fun stat _ => .ite (fun _ => ?_) fun _ => ?_
    · exact zeroChunks_keeps hk file _ _ _
    · exact .whenThen (fun _ => Io.setLen_keeps hk _ _) (zeroChunks_keeps hk file _ _ _)
  · refine .bind (preallocate_keeps hk file offset length) fun _ _ => ?_
    exact .ite (fun _ => growTo_keeps hk file _) fun _ => .pure trivial

theorem fallocate_mutating (input : Bytes) :
    Mutating root writable (fun _ _ => True) (fallocate input) := by
  refine mutating_of_keeps fun k hk _ _ => ?_
  refine .bind (u64At_keeps input 0) fun fh _ => .bind (u64At_keeps input 8) fun offset _ => ?_
  refine .bind (u64At_keeps input 16) fun length _ => .bind (u32At_keeps input 24) fun mode _ => ?_
  refine .bind get_keeps fun s _ => .require fun handle => ?_
  refine .guard fun _ => ?_
  exact .bind (hostFallocate_keeps hk _ offset length mode) fun _ _ => .pure trivial

theorem lseek_keeps (input : Bytes) : Safe root writable k (lseek input) := by
  refine .bind (u64At_keeps input 0) fun fh _ => .bind (u64At_keeps input 8) fun offset _ => ?_
  refine .bind (u32At_keeps input 16) fun whence _ => .bind get_keeps fun s _ => ?_
  refine .require fun handle => ?_
  refine .require fun hostWhence => .guard fun _ => ?_
  refine .bind (Io.askPlain_keeps (.lseek _ _ _) rfl rfl rfl nofun) fun r _ => ?_
  exact .bind (Io.hostResult_keeps fun _ _ => trivial) fun _ _ => .pure trivial

/-! ### Locks and the rest -/

theorem yieldFlock_keeps (file : Fd) (call : LockCall) :
    Safe root writable k (yieldFlock file call) := by
  cases call with
  | flock operation =>
    exact .bind (Io.askPlain_keeps (.flock _ _ _) rfl rfl rfl nofun) fun _ _ => .pure trivial
  | posix lock => exact .pure trivial

theorem settleLock_keeps (fh unique : UInt64) (call : LockCall)
    (wait : Bool) : Safe root writable k (settleLock fh unique call wait) := by
  refine .bind get_keeps fun s _ => .require fun handle => ?_
  refine .bind (Io.tryLock_keeps handle.file call) fun r _ => ?_
  split
  · exact .bind (tweak_keeps fun s => .notePosixLock s fh call) fun _ _ => .pure trivial
  · exact .throw _
  · refine .ite (fun _ => ?_) fun _ => .throw _
    refine .bind (yieldFlock_keeps handle.file call) fun _ _ => ?_
    exact .bind (tweak_keeps fun s => .lockToPark s _) fun _ _ => .pure trivial

theorem lock_keeps (input : Bytes) (opcode : Opcode) (unique : UInt64) :
    Safe root writable k (lock input opcode unique) := by
  refine .bind (u64At_keeps input 0) fun fh _ => .bind (u64At_keeps input 16) fun start _ => ?_
  refine .bind (u64At_keeps input 24) fun endAt _ => .bind (u32At_keeps input 32) fun type _ => ?_
  refine .bind (u32At_keeps input 36) fun _ _ => .bind (u32At_keeps input 40) fun flags _ => ?_
  refine .bind get_keeps fun s _ => .require fun handle => ?_
  refine .ite (fun _ => .ite (fun _ => .pure trivial) fun _ => ?_) fun _ => .guard fun _ => ?_
  · exact .require fun _ => settleLock_keeps _ _ _ _
  · refine .bind (lift_keeps _) fun len _ => .require fun type => ?_
    refine .ite (fun _ => settleLock_keeps _ _ _ _) fun _ => .ite (fun _ => ?_) fun _ => .throw _
    refine .bind (Io.askPlain_keeps (.ofdGetlk _ _) rfl rfl rfl nofun)
      fun r _ => .bind (Io.hostResult_keeps fun _ _ => trivial) fun found _ => ?_
    exact .require fun _ => .pure trivial

theorem poll_keeps (input : Bytes) : Safe root writable k (poll input) :=
  .bind (u64At_keeps input 0) fun _ _ => .bind get_keeps fun _ _ =>
    .guard fun _ => .bind (u32At_keeps input 20) fun _ _ => .pure trivial

theorem init_keeps (input : Bytes) : Safe root writable k (init input) :=
  .bind (u32At_keeps input 0) fun _ _ => .bind (u32At_keeps input 4) fun _ _ =>
    .bind get_keeps fun _ _ => .ite (fun _ => .pure trivial) fun _ => .pure trivial

end

end VirtioFs
