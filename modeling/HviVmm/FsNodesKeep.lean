/-
The functions between nodes and host entries keep inside the export.

`VirtioFs.rules` are the rules of a kind for the device: it stays `Good`, its files are those of
the kind, and it goes by the steps of `Change`.  For each function of `FsNodes` there is one lemma
`*_keeps`; a function that hands out a directory and a name for an `*at` call hands out a pair that
is inside.

* `spare_at` — what keeps the rules of a kind that makes nothing leaves the handles;
* `KeepsWhen` — the rules are kept from the states in which there is room, or a node is known.
-/
import HviVmm.FsChanges

open CallPrograms Fuse Relation

namespace VirtioFs

open Proc

/-- The rules of a kind for the device that exports `root`. -/
def rules (root : PathBuf) (writable : Bool) (k : Kind) : Rules VirtioFs HostOp HostOp.Ans where
  fair := k.Fair
  permits := k.Permits
  good s := s.Good root writable k.live ∧ (k.dirtied = true → s.dirty = true) ∧ s.Holds k.files
  moves := ReflTransGen (Change root writable k)
  moves_refl _ := .refl
  moves_trans := ReflTransGen.trans

instance (root : PathBuf) (writable : Bool) (k : Kind) : Follows k (rules root writable k) :=
  ⟨fun _ h => h, fun _ h => h⟩

/-- A handler that keeps the rules, whatever it returns. -/
abbrev Safe {α : Type} (root : PathBuf) (writable : Bool) (k : Kind) (m : Fs α) : Prop :=
  Keeps (rules root writable k) m fun _ => True

section

variable {root : PathBuf} {writable : Bool} {k : Kind} {α β : Type} {s s' : VirtioFs}
variable {f : VirtioFs → VirtioFs} {P : VirtioFs → Prop} {path : PathBuf}

/-! ### The state -/

theorem good_of_files (hfiles : ∀ fd, k.files fd) (hs : s.Good root writable k.live)
    (hdirty : k.dirtied = true → s.dirty = true) : (rules root writable k).good s :=
  ⟨hs, hdirty, fun _ _ _ => hfiles _, fun _ _ _ => hfiles _⟩

theorem Change.good_rules (h : Change root writable k s s') (hs : (rules root writable k).good s) :
    (rules root writable k).good s' :=
  ⟨h.good hs.1, fun hk => h.dirty hk (hs.2.1 hk), hs.2.2.change h⟩

theorem good_steps (h : ReflTransGen (Change root writable k) s s')
    (hs : (rules root writable k).good s) : (rules root writable k).good s' := by
  induction h with
  | refl => exact hs
  | tail _ hstep ih => exact hstep.good_rules ih

theorem get_keeps : Keeps (rules root writable k) (Proc.get : Fs VirtioFs)
    fun s => s.Good root writable k.live :=
  .get fun _ hs => hs.1

theorem getHeld_keeps : Keeps (rules root writable k) (Proc.get : Fs VirtioFs)
    fun s => s.Holds k.files :=
  .get fun _ hs => hs.2.2

theorem modify_keeps (h : ∀ s, ReflTransGen (Change root writable k) s (f s)) :
    Safe root writable k (Proc.modify f : Fs Unit) :=
  .modify fun s hs => ⟨good_steps (h s) hs, h s⟩

theorem tweak_keeps (h : ∀ s, Tweak root k.live k.dirtied s (f s)) :
    Safe root writable k (Proc.modify f : Fs Unit) :=
  modify_keeps fun s => .single (.tweak (h s))

theorem effect_keeps (hk : k.makes = true) (h : ∀ s, Effect root writable k s (f s)) :
    Safe root writable k (Proc.modify f : Fs Unit) :=
  modify_keeps fun s => .single (.effect hk (h s))

theorem change_bind {g : Unit → Fs β} {Q : β → VirtioFs → Prop}
    (hs : (rules root writable k).good s) (h : Change root writable k s (f s))
    (hg : (rules root writable k).good (f s) → KeepsAt (rules root writable k) (f s) (g ()) Q) :
    KeepsAt (rules root writable k) s (Proc.modify f >>= g) Q := by
  have hgood := h.good_rules hs
  have hmodify : KeepsAt (rules root writable k) s (Proc.modify f : Fs Unit) fun _ t => t = f s :=
    .modify hgood (.single h) rfl
  refine hmodify.bind fun _ t _ _ ht => ?_
  subst ht
  exact hg hgood

theorem onDirs_keeps {m : Io DirCache α} {R : α → Prop} (h : Keeps (DirCache.rules k) m R) :
    Keeps (rules root writable k) (onDirs m) R := by
  refine h.zoom (fun _ hc => hc) (fun _ hc => hc) (fun s hs => hs.1.dirs) fun s d hs hd _ => ?_
  have hstep : Change root writable k s { s with dirs := d } :=
    .tweak (.sheds (.mk (fun _ => hd) (.refl _)))
  exact ⟨hstep.good_rules hs, .single hstep⟩

/-! ### Room for a handle -/

theorem Change.spares (h : ReflTransGen (Change root writable k.spare) s s') :
    ReflTransGen (Change root writable k) s s' ∧ Spare s s' := by
  induction h with
  | refl => exact ⟨.refl, .refl s⟩
  | tail _ hstep ih => exact ⟨ih.1.tail hstep.spare.1, ih.2.trans hstep.spare.2⟩

/-- **What keeps the rules of a kind that makes nothing leaves the handles.** -/
theorem spare_at {m : Fs α} {R : α → VirtioFs → Prop}
    (h : KeepsAt (rules root writable k.spare) s m R) :
    KeepsAt (rules root writable k) s m fun a t => R a t ∧ Spare s t :=
  h.relax (fun _ hc => hc) (fun _ hc => ⟨hc.1, hc.2, hc.3, hc.4⟩)
    (fun _ hg hm => ⟨hg, (Change.spares hm).1⟩) fun _ _ hm ha => ⟨ha, (Change.spares hm).2⟩

/-- A condition that stays true while the handles and the nodes stay. -/
class Spared (P : VirtioFs → Prop) : Prop where
  spare : ∀ s s', Spare s s' → P s → P s'

instance (k : Kind) : Spared (Roomy k) := ⟨fun _ _ h => h.roomy⟩

instance (node : UInt64) : Spared (Known · node) := ⟨fun _ _ h => h.known node⟩

/-- A handle for the node may be made. -/
def Ready (k : Kind) (node : UInt64) (s : VirtioFs) : Prop := s.Known node ∧ Roomy k s

instance (k : Kind) (node : UInt64) : Spared (Ready k node) :=
  ⟨fun _ _ h hs => ⟨h.known node hs.1, h.roomy hs.2⟩⟩

/-- The rules are kept from the good states that satisfy `P`. -/
def KeepsWhen (root : PathBuf) (writable : Bool) (k : Kind) (P : VirtioFs → Prop) (m : Fs α) :
    Prop :=
  ∀ s, (rules root writable k).good s → P s → KeepsAt (rules root writable k) s m fun _ _ => True

theorem KeepsWhen.bind [Spared P] {m : Fs α} {f : α → Fs β} {R : α → Prop}
    (hm : Keeps (rules root writable k.spare) m R)
    (hf : ∀ a, R a → KeepsWhen root writable k P (f a)) :
    KeepsWhen root writable k P (m >>= f) := by
  intro s hs hP
  refine (spare_at (hm.keepsAt hs)).bind fun a t ht _ ha => ?_
  exact hf a ha.1 t ht (Spared.spare s t ha.2 hP)

theorem KeepsWhen.andThen {m : Fs α} {f : α → Fs β} {R : β → Prop}
    (hm : KeepsWhen root writable k P m) (hf : ∀ a, Keeps (rules root writable k) (f a) R) :
    KeepsWhen root writable k P (m >>= f) := by
  intro s hs hP
  refine (hm s hs hP).bind fun a t ht _ _ => ?_
  exact ((hf a).keepsAt ht).weaken fun _ _ _ => trivial

theorem KeepsWhen.whenThen [Spared P] {c : Prop} [Decidable c] {step : Fs Unit} {rest : Unit → Fs β}
    (hstep : c → Keeps (rules root writable k.spare) step fun _ => True)
    (hrest : KeepsWhen root writable k P (rest ())) :
    KeepsWhen root writable k P (if c then step >>= rest else rest ()) := by
  split
  · next hc => exact .bind (hstep hc) fun _ _ => hrest
  · exact hrest

theorem KeepsWhen.of_keeps {m : Fs α} {R : α → Prop} (h : Keeps (rules root writable k) m R) :
    KeepsWhen root writable k P m :=
  fun _ hs _ => (h.keepsAt hs).weaken fun _ _ _ => trivial

/-! ### Resolution -/

/-- A directory and a name in it, both inside. -/
def EntryOk (e : Fd × Name) : Prop := e.1.Inside ∧ IsComponent e.2

theorem relativeOfPath_keeps (h : PathBuf.Under root path) :
    Keeps (rules root writable k) (relativeOfPath path) PathBuf.Proper := by
  refine .bind get_keeps fun s hs => .orThrow fun rel hrel => ?_
  rw [hs.root_eq] at hrel
  exact h.below hrel

theorem lastName_keeps {relative : PathBuf} (h : PathBuf.Proper relative) :
    Keeps (rules root writable k) (lastName relative) IsComponent := by
  refine .bind (.orThrow (R := IsComponent) fun name hname => ?_) fun name hname => ?_
  · rw [PathBuf.fileName_eq_some hname] at h
    exact h name (by simp)
  · exact .lift fun c hc => cstring_ok hc ▸ hname

theorem statUncached_keeps (h : PathBuf.Under root path) :
    Safe root writable k (statUncached path) := by
  refine .bind get_keeps fun s hs => ?_
  refine .bind (relativeOfPath_keeps h) fun relative hrel => ?_
  split
  · exact Io.statOfFd_keeps _
  · refine .bind (lastName_keeps hrel) fun name hname => ?_
    show Keeps _ (if _ then _ else _) _
    split
    · exact Io.statAt_keeps hs.dirs.root hname
    · refine .bind (DirCache.walk_keeps hs.dirs.root hrel.parent) fun fd hfd => ?_
      exact Io.statAt_keeps hfd hname

theorem firstNaming_keeps (key : UInt64 × UInt64) {paths : List PathBuf}
    (h : ∀ p ∈ paths, PathBuf.Under root p) :
    Keeps (rules root writable k) (firstNaming key paths) fun r =>
      ∀ p ∈ r, PathBuf.Under root p := by
  induction paths with
  | nil => exact .pure fun p hp => by cases hp
  | cons path paths ih =>
    have htail := ih fun p hp => h p (List.mem_cons_of_mem _ hp)
    refine .bind (statUncached_keeps (h path List.mem_cons_self)).attempt fun r _ => ?_
    split
    · split
      · refine .pure fun p hp => ?_
        cases hp
        exact h path List.mem_cons_self
      · exact htail
    · exact htail

theorem nodePath_at (node : UInt64) (hs : (rules root writable k).good s) :
    KeepsAt (rules root writable k) s (nodePath node) fun p t =>
      PathBuf.Under root p ∧ t.Known node := by
  refine .get_bind (.orThrow_bind hs fun n hn => ?_)
  have hpaths : ∀ p ∈ n.paths, PathBuf.Under root p := hs.1.nodes node n hn
  have hknown : s.Known node := .inl (by rw [hn]; rfl)
  refine (spare_at (Keeps.keepsAt (R := PathBuf.Under root) ?_ hs)).weaken
    fun p t h => ⟨h.1, h.2.known node hknown⟩
  split
  · next only honly => exact .pure (hpaths only (by simp [honly]))
  · refine .bind (firstNaming_keeps n.key hpaths) fun r hr => ?_
    exact .orThrow fun p hp => hr p hp

theorem nodePath_keeps (node : UInt64) :
    Keeps (rules root writable k) (nodePath node) (PathBuf.Under root) :=
  .of_at fun _ hs => (nodePath_at node hs).weaken fun _ _ h => h.1

theorem relativeOf_keeps (node : UInt64) :
    Keeps (rules root writable k) (relativeOf node) PathBuf.Proper :=
  .bind (nodePath_keeps node) fun _ hp => relativeOfPath_keeps hp

theorem atRelative_keeps {relative : PathBuf} (h : PathBuf.Proper relative) :
    Keeps (rules root writable k) (atRelative relative) EntryOk := by
  refine .bind (lastName_keeps h) fun name hname => ?_
  refine .bind (onDirs_keeps (DirCache.dirFd_keeps h.parent)) fun fd hfd => ?_
  exact .pure ⟨hfd, hname⟩

theorem atPath_keeps (h : PathBuf.Under root path) :
    Keeps (rules root writable k) (atPath path) EntryOk :=
  .bind (relativeOfPath_keeps h) fun _ hrel => atRelative_keeps hrel

theorem entryAt_keeps (node : UInt64) : Keeps (rules root writable k) (entryAt node) EntryOk :=
  .bind (relativeOf_keeps node) fun _ hrel => atRelative_keeps hrel

theorem twoEntriesAt_keeps {old new : PathBuf} (hold : PathBuf.Under root old)
    (hnew : PathBuf.Under root new) :
    Keeps (rules root writable k) (twoEntriesAt old new) fun e =>
      EntryOk (e.1, e.2.1) ∧ EntryOk e.2.2 := by
  refine .bind (relativeOfPath_keeps hold) fun oldRel holdRel => ?_
  refine .bind (relativeOfPath_keeps hnew) fun newRel hnewRel => ?_
  refine .bind (lastName_keeps holdRel) fun oldName holdName => ?_
  refine .bind (lastName_keeps hnewRel) fun newName hnewName => ?_
  refine .bind (onDirs_keeps (DirCache.dirFdOwned_keeps holdRel.parent)) fun oldFd holdFd => ?_
  refine .bind (onDirs_keeps (DirCache.dirFdOwned_keeps hnewRel.parent)) fun newFd hnewFd => ?_
  exact .pure ⟨⟨holdFd, holdName⟩, ⟨hnewFd, hnewName⟩⟩

theorem statInExport_keeps (h : PathBuf.Under root path) :
    Safe root writable k (statInExport path) := by
  refine .bind (relativeOfPath_keeps h) fun relative hrel => ?_
  split
  · exact .bind get_keeps fun s _ => Io.statOfFd_keeps _
  · refine .bind (atRelative_keeps hrel) fun e he => ?_
    exact Io.statAt_keeps he.1 he.2

theorem openEntryAt_keeps (node : UInt64) : Safe root writable k (openEntryAt node) := by
  -- what an entry is opened for does not resolve names under it
  have hdup : ∀ fd, Safe root writable k (Io.dupCloexec fd : Fs Fd) :=
    fun fd => (Io.dupCloexec_keeps fd).weaken fun _ _ => trivial
  refine .bind get_keeps fun s hs => ?_
  split
  · refine .require fun e => ?_
    exact hdup _
  · refine .bind (relativeOf_keeps node) fun relative _ => ?_
    split
    · exact .bind get_keeps fun s _ => hdup _
    · refine .bind (entryAt_keeps node) fun e he => ?_
      exact (Io.openEntryNofollow_keeps he.1 he.2).weaken fun _ _ => trivial

/-! ### Nodes of inodes -/

theorem firstStale_keeps (key : UInt64 × UInt64) {paths : List PathBuf}
    (h : ∀ p ∈ paths, PathBuf.Under root p) : Safe root writable k (firstStale key paths) := by
  induction paths with
  | nil => exact .pure trivial
  | cons path paths ih =>
    have htail := ih fun p hp => h p (List.mem_cons_of_mem _ hp)
    refine .bind (statUncached_keeps (h path List.mem_cons_self)).attempt fun r _ => ?_
    split
    · split
      · exact .pure trivial
      · exact .bind htail fun _ _ => .pure trivial
    · exact .pure trivial

theorem addAlias_paths {stale : Option ℕ} {p : PathBuf} {n : Node}
    (h : p ∈ (addAlias stale path n).paths) : p ∈ n.paths ∨ p = path := by
  unfold addAlias at h
  split at h
  · exact .inl h
  · rcases List.mem_append.mp h with h | h
    · refine .inl ?_
      cases stale with
      | none => exact h
      | some i => exact (List.eraseIdx_sublist n.paths i).subset h
    · exact .inr (List.mem_singleton.mp h)

theorem addAlias_amended (stale : Option ℕ) (h : PathBuf.Under root path) (n : Node) :
    Node.Amended root n (addAlias stale path n) where
  counts := by
    unfold addAlias
    split
    · rfl
    · rfl
  paths hn p hp := by
    rcases addAlias_paths hp with hp | rfl
    · exact hn p hp
    · exact h
  named hnil := by
    unfold addAlias at hnil
    split at hnil
    · exact hnil
    · exact absurd hnil (by simp)

/-- **A node that was found or made is known.** -/
theorem nodeFor_at (stat : Stat) (h : PathBuf.Under root path)
    (hs : (rules root writable k).good s) :
    KeepsAt (rules root writable k) s (nodeFor path stat) fun node t => t.Known node := by
  refine .get_bind ?_
  split
  · next node hkey =>
    extract_lets paths named
    have hpaths : ∀ p ∈ paths, PathBuf.Under root p := by
      intro p hp
      cases hn : s.nodes.lookup node with
      | none => simp [paths, hn] at hp
      | some n => exact hs.1.nodes node n hn p (by simpa [paths, hn] using hp)
    have hnamed : ∀ stale t, (rules root writable k).good t → t.Known node →
        KeepsAt (rules root writable k) t (named stale) fun node t => t.Known node := by
      intro stale t ht hknown
      have hstep : Change root writable k.spare t _ :=
        .tweak (.node t node (addAlias_amended stale h))
      exact change_bind ht hstep.spare.1 fun hgood => .pure hgood (hstep.spare.2.known node hknown)
    clear_value named
    have hknown : s.Known node := .inr ⟨stat.key, hkey⟩
    split
    · have hstale : Keeps (rules root writable k.spare)
          ((fun found => some (found.getD 0)) <$> firstStale stat.key paths) fun _ => True :=
        .bind (firstStale_keeps stat.key hpaths) fun _ _ => .pure trivial
      refine (spare_at (hstale.keepsAt hs)).bind fun stale t ht _ hspare => ?_
      exact hnamed stale t ht (hspare.2.known node hknown)
    · exact hnamed none s hs hknown
  · next hkey =>
    refine change_bind hs (.newNode s hkey h) fun hgood => .pure hgood ?_
    exact .inr ⟨stat.key, AList.lookup_insert _⟩

theorem nodeFor_keeps (stat : Stat) (h : PathBuf.Under root path) :
    Safe root writable k (nodeFor path stat) :=
  .of_at fun _ hs => (nodeFor_at stat h hs).weaken fun _ _ _ => trivial

/-- The guest takes a reference to the node that was found or made. -/
theorem nodeFor_bind {stat : Stat} (h : PathBuf.Under root path) {f : UInt64 → Fs β} {R : β → Prop}
    (hf : ∀ node, Keeps (rules root writable k) (f node) R) :
    Keeps (rules root writable k) (do
      let node ← nodeFor path stat
      Proc.modify (rememberLookup · node)
      f node) R := by
  refine .of_at fun s hs => (nodeFor_at stat h hs).bind fun node t ht _ hknown => ?_
  exact change_bind ht (.remember t hknown) fun hgood => (hf node).keepsAt hgood

theorem guestAttr_keeps (node : UInt64) (stat : Stat) :
    Safe root writable k (guestAttr node stat) := by
  refine .bind get_keeps fun s _ => ?_
  extract_lets view store
  have hview : ∀ stored, Safe root writable k (view stored) :=
    fun _ => .bind get_keeps fun _ _ => .pure trivial
  have hstore : ∀ stored, Safe root writable k (store stored) := by
    intro stored
    refine .bind (tweak_keeps fun s => ?_) fun _ _ => .pureBind (hview stored)
    exact .node s node fun _ => .of_paths rfl rfl
  clear_value store view
  split
  · exact .pureBind (hview _)
  · refine .bind (openEntryAt_keeps node).attempt fun r _ => ?_
    split
    · exact .bind (Io.storedGuestAttr_keeps _) fun _ _ => hstore _
    · exact .pureBind (hstore _)

theorem guestAttrOfFd_keeps (fd : Fd) (stat : Stat) :
    Safe root writable k (guestAttrOfFd fd stat) :=
  .bind (Io.storedGuestAttr_keeps fd) fun _ _ =>
    .bind get_keeps fun _ _ => .pure trivial

theorem attrOut_keeps (node : UInt64) (stat : Stat) : Safe root writable k (attrOut node stat) :=
  .bind (guestAttr_keeps node stat) fun _ _ => .bind get_keeps fun _ _ => .pure trivial

theorem entryOut_keeps (node : UInt64) (stat : Stat) : Safe root writable k (entryOut node stat) :=
  .bind (guestAttr_keeps node stat) fun _ _ => .bind get_keeps fun _ _ => .pure trivial

theorem childPath_keeps (parent : UInt64) (name : Name) :
    Keeps (rules root writable k) (childPath parent name) (PathBuf.Under root) := by
  refine .bind (.lift fun _ h => validateMutationName_ok h) fun _ hname => ?_
  exact .bind (nodePath_keeps parent) fun p hp => .pure (hp.join hname)

theorem newEntry_keeps (h : PathBuf.Under root path) : Safe root writable k (newEntry path) := by
  refine .bind (statInExport_keeps h) fun stat _ => ?_
  exact nodeFor_bind h fun node => entryOut_keeps node stat

/-! ### Metadata -/

theorem initializeGuestMetadata_keeps (hk : k.change = true) {dirfd : Fd} {name : Name}
    (mode : UInt32) (context : RequestContext) (hdir : dirfd.Inside) (hname : IsComponent name) :
    Safe root writable k (initializeGuestMetadata dirfd name mode context) := by
  refine .bind (Io.statAt_keeps hdir hname) fun stat _ => ?_
  refine .bind (Io.openEntryNofollow_keeps hdir hname) fun fd _ => ?_
  extract_lets store
  have hstore : ∀ u, Safe root writable k (store u) :=
    fun _ => Io.setGuestAttr_keeps hk fd _
  clear_value store
  split
  · exact .bind (Io.chmodAt_keeps hk hdir hname _) fun u _ => hstore u
  · exact hstore ()

theorem clearSuidSgid_keeps (hk : k.change = true) (file : Fd) :
    Safe root writable k (clearSuidSgid file) := by
  refine .bind (Io.statOfFd_keeps file) fun stat _ => ?_
  refine .bind (guestAttrOfFd_keeps file stat) fun guest _ => ?_
  split
  · exact Io.setGuestAttr_keeps hk file _
  · exact .pure trivial

end

end VirtioFs
