/-
The state of a virtio-fs device that stays inside its export.

Every path the device has recorded is below the export's root by names that stay in their
directory, every directory descriptor it holds was reached without following a link, and the
names of a listing, after `.` and `..`, stay in the directory listed.

* `DirCache.walk_keeps` — the walk makes only such calls, whatever the links it meets say, and
  ends with such a descriptor;
* `VirtioFs.Good` — the invariant.
-/
import HviVmm.FsRules

open CallPrograms Fuse

/-! ### Paths below the root -/

/-- The path is at or below `root`, by names that stay in their directory. -/
def PathBuf.Under (root p : PathBuf) : Prop := ∃ rel, p = root ++ rel ∧ PathBuf.Proper rel

namespace PathBuf

variable {root p : PathBuf}

theorem under_root (root : PathBuf) : Under root root := ⟨[], by simp, .nil⟩

theorem Under.below {rel : PathBuf} (h : Under root p) (hrel : p.below root = some rel) :
    Proper rel := by
  obtain ⟨rel', rfl, hproper⟩ := h
  have hrel' := below_eq_some.mp hrel
  rwa [List.append_cancel_left hrel'] at hproper

theorem Under.join {name : Name} (h : Under root p) (hname : IsComponent name) :
    Under root (p.join name) := by
  obtain ⟨rel, rfl, hproper⟩ := h
  exact ⟨rel ++ [name], by simp [join_component _ hname], hproper.snoc hname⟩

theorem Under.append {rest : PathBuf} (h : Under root p) (hrest : Proper rest) :
    Under root (p ++ rest) := by
  obtain ⟨rel, rfl, hproper⟩ := h
  exact ⟨rel ++ rest, by simp, hproper.append hrest⟩

theorem Under.parent (h : Under root p) (hne : p ≠ root) : Under root (p.parent.getD root) := by
  obtain ⟨rel, rfl, hproper⟩ := h
  have hrel : rel ≠ [] := fun hrel => hne (by simp [hrel])
  refine ⟨rel.dropLast, ?_, hproper.dropLast⟩
  simp [PathBuf.parent, hrel, List.dropLast_append_of_ne_nil hrel]

/-- What is below such a path, when it is below it, are proper names. -/
theorem Under.of_append {q rest : PathBuf} (h : Under root p) (hq : Under root q)
    (hp : p = q ++ rest) : Proper rest := by
  obtain ⟨rel, rfl, hproper⟩ := h
  obtain ⟨rel', rfl, -⟩ := hq
  rw [List.append_assoc] at hp
  rw [List.append_cancel_left hp] at hproper
  exact hproper.of_append_right

end PathBuf

/-! ### The walk -/

namespace DirCache

open Proc

/-- The components still to resolve: names, `.` or `..`. -/
def Pending (names : List Name) : Prop := ∀ c ∈ names, IsComponent c ∨ c = dot ∨ c = dotdot

theorem pending_components (target : Bytes) : Pending (PathBuf.components target) := by
  intro c hc
  rcases PathBuf.mem_components hc with h | h
  · exact .inl h
  · exact .inr (.inr h)

section

variable {σ : Type} {k : Kind} {ρ : Rules σ HostOp HostOp.Ans} [hfollows : Follows k ρ] {root : Fd}

include hfollows

theorem openResolvedFrom_keeps (hroot : root.Inside) {current : Option Fd}
    (hcurrent : ∀ fd ∈ current, fd.Inside) {names : List Name} (hnames : PathBuf.Proper names) :
    Keeps ρ (openResolvedFrom root current names : Io σ (Option Fd)) fun r =>
      ∀ fd ∈ r, fd.Inside := by
  induction names generalizing current with
  | nil => exact .pure hcurrent
  | cons name names ih =>
    have hdir : (current.getD root).Inside := by
      cases current with
      | none => exact hroot
      | some fd => exact hcurrent fd rfl
    refine .bind (Io.openDirNofollowAt_keeps hdir (hnames name List.mem_cons_self)) fun fd hfd => ?_
    refine ih (fun fd' h' => ?_) fun c hc => hnames c (List.mem_cons_of_mem _ hc)
    cases h'
    exact hfd

theorem openResolved_keeps (hroot : root.Inside) {names : List Name}
    (hnames : PathBuf.Proper names) :
    Keeps ρ (openResolved root names : Io σ (Option Fd)) fun r => ∀ fd ∈ r, fd.Inside :=
  openResolvedFrom_keeps hroot (fun _ h => by cases h) hnames

/-- The walk between two expansions.  The invariant is that the resolved components are
proper; a link's target only ever adds to those still to resolve. -/
theorem walkAlong_keeps (hroot : root.Inside)
    {expand : List Name → List Name → Io σ Fd}
    (hexpand : ∀ p r, Pending p → PathBuf.Proper r → Keeps ρ (expand p r) Fd.Inside)
    {pending resolved : List Name} (hpending : Pending pending)
      (hresolved : PathBuf.Proper resolved) :
    Keeps ρ (walkAlong root expand pending resolved) Fd.Inside := by
  induction pending generalizing resolved with
  | nil =>
    refine .bind (openResolved_keeps hroot hresolved) fun r hr => ?_
    exact .orThrow fun fd hfd => hr fd hfd
  | cons name pending ih =>
    have htail : Pending pending := fun c hc => hpending c (List.mem_cons_of_mem _ hc)
    unfold walkAlong
    split
    · exact ih htail hresolved
    · next hdot =>
      split
      · -- `..` stops at the root
        exact ih htail hresolved.dropLast
      · next hdotdot =>
        have hname : IsComponent name := by
          rcases hpending name List.mem_cons_self with hc | hc | hc
          · exact hc
          · exact absurd hc hdot
          · exact absurd hc hdotdot
        refine .bind (openResolved_keeps hroot hresolved) fun r hr => ?_
        have hparent : (r.getD root).Inside := by
          cases r with
          | none => exact hroot
          | some fd => exact hr fd rfl
        refine .bind (Io.openDirNofollowAt_keeps hparent hname).attempt fun r' _ => ?_
        split
        · exact ih htail (hresolved.snoc hname)
        · split
          · refine .bind (.lift fun c hc => cstring_ok hc) fun c hc => ?_
            subst hc
            refine .bind (Io.readLinkAt_keeps hparent hname).attempt fun t _ => ?_
            split
            · exact .throw _
            · next target _ =>
              refine hexpand _ _ ?_ ?_
              · intro c hc
                rcases List.mem_append.mp hc with hc | hc
                · exact pending_components target c hc
                · exact htail c hc
              · split
                · exact .nil
                · exact hresolved
          · exact .throw _

theorem walkFrom_keeps (hroot : root.Inside) (left : ℕ)
    {pending resolved : List Name} (hpending : Pending pending)
      (hresolved : PathBuf.Proper resolved) :
    Keeps ρ (walkFrom root left pending resolved : Io σ Fd) Fd.Inside := by
  induction left generalizing pending resolved with
  | zero => exact walkAlong_keeps hroot (fun _ _ _ _ => .throw _) hpending hresolved
  | succ left ih =>
    exact walkAlong_keeps hroot (fun _ _ hp hr => ih hp hr) hpending hresolved

/-- **The walk stays inside the export**, whatever the links it meets say. -/
theorem walk_keeps (hroot : root.Inside) {relative : PathBuf}
    (hrel : PathBuf.Proper relative) : Keeps ρ (walk root relative : Io σ Fd) Fd.Inside := by
  unfold walk
  split
  · exact .throw _
  · exact walkFrom_keeps hroot _ (fun c hc => .inl (hrel c hc)) .nil

end

/-! ### The descriptor cache -/

/-- Every descriptor the cache holds is inside the export. -/
structure Good (d : DirCache) : Prop where
  root : d.root.Inside
  openDirs : d.openDirs.All fun _ e => e.1.Inside
  scratch : ∀ fd ∈ d.scratch, fd.Inside

variable {d : DirCache}

theorem Good.compactLru (h : d.Good) : d.compactLru.Good := by
  unfold DirCache.compactLru
  split
  · exact h
  · exact ⟨h.root, h.openDirs, h.scratch⟩

theorem Good.touch (h : d.Good) (relative : PathBuf) : (d.touch relative).Good := by
  unfold DirCache.touch
  refine Good.compactLru ?_
  dsimp only
  split
  · next fd _ hlookup =>
    have hfd : fd.Inside := h.openDirs relative _ hlookup
    exact ⟨h.root, h.openDirs.insert hfd, h.scratch⟩
  · exact ⟨h.root, h.openDirs, h.scratch⟩

theorem Good.evictFrom (h : d.Good) (lru : List (PathBuf × ℕ)) : (d.evictFrom lru).1.Good := by
  induction lru with
  | nil => exact ⟨h.root, h.openDirs, h.scratch⟩
  | cons e rest ih =>
    unfold DirCache.evictFrom
    split
    · exact ⟨h.root, h.openDirs.erase, h.scratch⟩
    · exact ih

theorem Good.evictOne (h : d.Good) : d.evictOne.1.Good := h.evictFrom d.lru

theorem Good.makeRoom (n : ℕ) (h : d.Good) : (makeRoom n d).Good := by
  induction n generalizing d with
  | zero => exact h
  | succ n ih =>
    unfold DirCache.makeRoom
    split
    · split
      · next d' he => exact ih (by simpa [he] using h.evictOne)
      · next d' he => simpa [he] using h.evictOne
    · exact h

theorem Good.admitDir (h : d.Good) (relative : PathBuf) {fd : Fd} (hfd : fd.Inside) :
    (d.admitDir relative fd).Good := by
  have hroom := h.makeRoom d.openDirs.len
  exact ⟨hroom.root, hroom.openDirs.insert hfd, hroom.scratch⟩

theorem Good.forget (h : d.Good) (relative : PathBuf) : (d.forget relative).Good :=
  ⟨h.root, h.openDirs.erase, h.scratch⟩

theorem Good.forgetSubtree (h : d.Good) (relative : PathBuf) : (d.forgetSubtree relative).Good := by
  unfold DirCache.forgetSubtree
  generalize d.openDirs.keys.filter _ = keys
  induction keys generalizing d with
  | nil => exact h
  | cons key keys ih => exact ih (h.forget key)

/-- The rules of a kind for the descriptor cache. -/
def rules (k : Kind) : Rules DirCache HostOp HostOp.Ans where
  fair := k.Fair
  permits := k.Permits
  good := Good
  moves _ _ := True
  moves_refl _ := trivial
  moves_trans _ _ := trivial

instance (k : Kind) : Follows k (rules k) := ⟨fun _ h => h, fun _ h => h⟩

variable {k : Kind} {relative : PathBuf}

theorem dirFd_keeps (hrel : PathBuf.Proper relative) :
    Keeps (rules k) (dirFd relative) Fd.Inside := by
  refine .bind (.get (P := Good) fun _ hd => hd) fun d hd => ?_
  split
  · exact .pure hd.root
  · split
    · refine .bind (walk_keeps hd.root hrel) fun fd hfd => ?_
      refine .bind (.modify fun d hd => ⟨⟨hd.root, hd.openDirs, ?_⟩, trivial⟩) fun _ _ => .pure hfd
      intro fd' h'
      cases h'
      exact hfd
    · extract_lets found
      -- what both branches end with: the entry just touched or admitted
      have hfound : ∀ u, Keeps (rules k) (found u) Fd.Inside := by
        intro u
        refine .bind (.get (P := Good) fun _ hd => hd) fun d hd => ?_
        split
        · next fd _ hfd => exact .pure (hd.openDirs relative _ hfd)
        · exact .throw _
      clear_value found
      split
      · exact .bind (.modify fun d hd => ⟨hd.touch relative, trivial⟩) fun u _ => hfound u
      · refine .bind (walk_keeps hd.root hrel) fun fd hfd => ?_
        exact .bind (.modify fun d hd => ⟨hd.admitDir relative hfd, trivial⟩) fun u _ => hfound u

theorem dirFdOwned_keeps (hrel : PathBuf.Proper relative) :
    Keeps (rules k) (dirFdOwned relative) Fd.Inside := by
  refine .bind (dirFd_keeps hrel) fun fd hfd => ?_
  exact (Io.dupCloexec_keeps fd).weaken fun _ h => h.1 hfd

end DirCache

/-! ### The device -/

/-- The names of a listing after `.` and `..` stay in the directory listed. -/
def ListingOk (entries : List DirEntryInfo) : Prop := ∀ e ∈ entries.drop 2, IsComponent e.name

/-- The listing is one, and the stats prepared for it, if there are any, are live. -/
def Fh0Listing.Ok (live : ℕ → Prop) (l : Fh0Listing) : Prop :=
  ListingOk l.entries ∧ (l.prepared ≠ [] → live l.born)

namespace VirtioFs

/-- The device stays inside the export at `root`, and holds no tmpfile of an export that is not
`writable`. -/
structure Good (root : PathBuf) (writable : Bool) (live : ℕ → Prop) (s : VirtioFs) : Prop where
  root_eq : s.root = root
  writable_eq : s.writable = writable
  dirs : s.dirs.Good
  nodes : s.nodes.All fun _ n => ∀ p ∈ n.paths, PathBuf.Under root p
  sockets : s.sockets.All fun p _ => PathBuf.Under root p
  temporaries : s.handles.All fun _ h => ∀ p ∈ h.temporaryPath, PathBuf.Under root p ∧
    writable = true
  dirHandles : s.dirHandles.All fun _ h => h.file.Inside ∧ ListingOk h.entries
  listings : s.fh0Listings.All fun _ l => l.Ok live

theorem Good.mono {root : PathBuf} {writable : Bool} {live live' : ℕ → Prop} {s : VirtioFs}
    (h : s.Good root writable live) (hlive : ∀ b, live b → live' b) : s.Good root writable live' :=
  ⟨h.root_eq, h.writable_eq, h.dirs, h.nodes, h.sockets, h.temporaries, h.dirHandles,
    fun node listing hl => ⟨(h.listings node listing hl).1,
      fun hne => hlive _ ((h.listings node listing hl).2 hne)⟩⟩

section

variable {root : PathBuf}

/-! ### Moving paths -/

theorem movePath_under {old new p : PathBuf} (hold : PathBuf.Under root old)
    (hnew : PathBuf.Under root new) (hp : PathBuf.Under root p) :
    PathBuf.Under root (movePath old new p) := by
  unfold movePath
  split
  · next rest hrest => exact hnew.append (hp.of_append hold (PathBuf.below_eq_some.mp hrest))
  · exact hp

theorem swapPath_under {left right p : PathBuf} (hleft : PathBuf.Under root left)
    (hright : PathBuf.Under root right) (hp : PathBuf.Under root p) :
    PathBuf.Under root (swapPath left right p) := by
  unfold swapPath
  split
  · next rest hrest => exact hright.append (hp.of_append hleft (PathBuf.below_eq_some.mp hrest))
  · exact movePath_under hright hleft hp

end

end VirtioFs
