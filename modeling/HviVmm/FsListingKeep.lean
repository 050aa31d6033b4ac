/-
READDIR and READDIRPLUS keep inside the export.

The names of a page, after `.` and `..`, are names of a listing, which stay in the directory
listed; the descriptor they are looked up through is inside.  A kind that may deal with the
workers is needed for the prepared listing a page starts with and for the subdirectories it
asks for.
-/
import HviVmm.FsFilesKeep

open CallPrograms Fuse Relation

namespace VirtioFs

open Proc

section

variable {root : PathBuf} {writable : Bool} {k : Kind}
variable {dir : PathBuf}

theorem dropPrepared_keeps : Safe root writable k dropPrepared :=
  .bind (Io.askPlain_keeps .raInvalidate rfl rfl rfl nofun) fun _ _ =>
    tweak_keeps fun s => .listings s fun h => h.mapVal fun _ _ hl =>
      ⟨hl.1, fun hne => absurd rfl hne⟩

theorem preparedIsFresh_keeps (readAt : ℕ) : Safe root writable k (preparedIsFresh readAt) :=
  .bind (Io.askPlain_keeps .clockWithSleep rfl rfl rfl nofun) fun _ _ =>
    .bind get_keeps fun _ _ => .pure trivial

/-! ### Listings -/

theorem fh0OfPrepared_ok {live : ℕ → Prop} {prepared : PreparedDir} (fresh : Bool)
    (h : ∀ e ∈ prepared.entries, IsComponent e.info.name) (hborn : live prepared.born) :
    (fh0OfPrepared prepared fresh).Ok live := by
  refine ⟨fun e he => ?_, fun _ => hborn⟩
  obtain ⟨p, hp, rfl⟩ := List.mem_map.mp (show e ∈ prepared.entries.map PreparedEntry.info from he)
  exact h p hp

theorem takePrepared_keeps (hk : k.prepared = true) (h : PathBuf.Under root dir) :
    Keeps (rules root writable k) (takePrepared dir) fun r => ∀ l ∈ r, l.Ok k.live := by
  refine .bind (Io.ask_keeps fun x => ⟨nofun, nofun, fun _ => hk, nofun⟩) fun r hr => ?_
  split
  · exact .pure fun l hl => by cases hl
  · next prepared =>
    refine .bind (relativeOfPath_keeps h) fun relative hrel => ?_
    refine .bind (onDirs_keeps (DirCache.dirFd_keeps hrel)) fun fd _ => ?_
    refine .bind (Io.statOfFd_keeps fd) fun stat _ => .ite (fun _ => ?_) fun _ => ?_
    · refine .bind (preparedIsFresh_keeps _) fun fresh _ => .pure fun l hl => ?_
      cases hl
      exact fh0OfPrepared_ok fresh hr.1 hr.2
    · exact .pure fun l hl => by cases hl

theorem preparedFor_keeps (hk : k.prepared = true) (plus : Bool) (h : PathBuf.Under root dir) :
    Keeps (rules root writable k) (preparedFor dir plus) fun r => ∀ l ∈ r, l.Ok k.live :=
  .bind get_keeps fun _ _ => .ite (fun _ => takePrepared_keeps hk h) fun _ =>
    .pure fun l hl => by cases hl

theorem fh0ListingFor_keeps (hk : k.prepared = true) (plus : Bool) (h : PathBuf.Under root dir) :
    Keeps (rules root writable k) (fh0ListingFor dir plus) fun l => l.Ok k.live := by
  refine .bind (preparedFor_keeps hk plus h) fun r hr => ?_
  split
  · next listing => exact .pure (hr listing rfl)
  · exact .bind (dirEntries_keeps h) fun entries hentries =>
      .pure ⟨hentries, fun hne => absurd rfl hne⟩

theorem startListing_keeps (hk : k.prepared = true) (node : UInt64) (plus : Bool)
    (h : PathBuf.Under root dir) : Safe root writable k (startListing node dir plus) := by
  refine .bind (fh0ListingFor_keeps hk plus h) fun listing hlisting => ?_
  exact tweak_keeps fun s => .listings s fun hall => hall.insert hlisting

theorem agePrepared_keeps (node : UInt64) : Safe root writable k (agePrepared node) := by
  refine .bind get_keeps fun s _ => ?_
  split
  · refine .bind (preparedIsFresh_keeps _) fun fresh _ => .ite (fun _ => ?_) fun _ => .pure trivial
    exact tweak_keeps fun s => .listings s fun hall =>
      hall.update fun _ hl => ⟨hl.1, fun hne => absurd rfl hne⟩
  · exact .pure trivial

/-! ### Pages -/

/-- The names of a page after `.` and `..` stay in their directory. -/
def PageOk (batch : List (ℕ × DirEntryInfo)) : Prop := ∀ e ∈ batch, 1 < e.1 → IsComponent e.2.name

theorem pageOf_ok {entries : List DirEntryInfo} (h : ListingOk entries) (offset n : ℕ) :
    PageOk (pageOf entries offset n) := by
  intro e he hidx
  have hmem := List.mem_of_mem_drop (List.mem_of_mem_take he)
  obtain ⟨⟨entry, idx⟩, hzip, rfl⟩ := List.mem_map.mp hmem
  have hget : entries[idx]? = some entry := List.mem_zipIdx_iff_getElem?.mp hzip
  refine h entry (List.mem_iff_getElem?.mpr ⟨idx - 2, ?_⟩)
  have hidx' : 2 + (idx - 2) = idx := by
    have : 1 < idx := hidx
    omega
  rw [List.getElem?_drop, hidx', hget]

/-- What makes room for a listing touches the listings only. -/
theorem makeFh0Room_steps (n : ℕ) (s : VirtioFs) :
    ReflTransGen (Change root writable k) s (makeFh0Room n s) := by
  induction n generalizing s with
  | zero => exact .refl
  | succ n ih =>
    unfold makeFh0Room
    split
    · refine ReflTransGen.trans ?_ (ih _)
      unfold evictFh0Listing
      extract_lets pos
      split
      · exact .refl
      · exact .single (.tweak (.listings s fun hall => hall.erase))
    · exact .refl

theorem fh0Page_keeps (hk : k.prepared = true) (node : UInt64) (plus : Bool) (offset n : ℕ)
    (h : PathBuf.Under root dir) :
    Keeps (rules root writable k) (fh0Page node dir plus offset n) fun r => PageOk r.1 := by
  refine .bind get_keeps fun s _ => ?_
  refine .whenThen (fun _ => startListing_keeps hk node plus h) ?_
  refine .bind (modify_keeps fun s => ?_) fun _ _ => .bind get_keeps fun s _ => ?_
  · extract_lets s₁
    have hroom : ReflTransGen (Change root writable k) s s₁ :=
      .head (.tweak (.listings s id)) (makeFh0Room_steps _ _)
    clear_value s₁
    exact hroom.tail (.tweak (.listings s₁ id))
  refine .bind (agePrepared_keeps node) fun _ _ => .bind get_keeps fun s hs => .pure ?_
  refine pageOf_ok ?_ offset n
  cases hl : s.fh0Listings.lookup node with
  | none => intro e he; simp at he
  | some listing => exact (hs.listings node listing hl).1

theorem handlePage_keeps (fh : UInt64) (offset n : ℕ) :
    Keeps (rules root writable k) (handlePage fh offset n) fun r => PageOk r.1 := by
  refine .bind get_keeps fun s hs => ?_
  refine .bind (.orThrow fun handle hh => (hs.dirHandles fh handle hh).2) fun handle hhandle => ?_
  exact .pure (pageOf_ok hhandle offset n)

theorem pageFor_keeps (hk : k.prepared = true) (node fh : UInt64) (plus : Bool) (offset n : ℕ)
    (h : PathBuf.Under root dir) :
    Keeps (rules root writable k) (pageFor node fh dir plus offset n) fun r => PageOk r.1 :=
  .ite (fun _ => fh0Page_keeps hk node plus offset n h) fun _ => handlePage_keeps fh offset n

theorem listingFd_keeps (fh : UInt64) (h : PathBuf.Under root dir) :
    Keeps (rules root writable k) (listingFd dir fh) Fd.Inside := by
  refine .ite (fun _ => ?_) fun _ => ?_
  · exact .bind (relativeOfPath_keeps h) fun relative hrel =>
      onDirs_keeps (DirCache.dirFdOwned_keeps hrel)
  · refine .bind get_keeps fun s hs => ?_
    refine .bind (.orThrow fun handle hh => (hs.dirHandles fh handle hh).1) fun handle hfile => ?_
    exact (Io.dupCloexec_keeps handle.file).weaken fun _ hfd => hfd.1 hfile

theorem listingFdFor_keeps (fh : UInt64) (plus : Bool) (batch : List (ℕ × DirEntryInfo))
    (h : PathBuf.Under root dir) :
    Keeps (rules root writable k) (listingFdFor dir fh plus batch) fun r =>
      ∀ fd ∈ r, fd.Inside := by
  refine .ite (fun _ => .bind (listingFd_keeps fh h) fun fd hfd => .pure fun fd' h' => ?_) fun _ =>
    .pure fun fd hfd => by cases hfd
  cases h'
  exact hfd

/-! ### Records -/

/-- What a page works with is inside. -/
structure ReaddirPage.Inside (root : PathBuf) (page : ReaddirPage) : Prop where
  dir : PathBuf.Under root page.dir
  parentPath : PathBuf.Under root page.parentPath
  listing : ∀ fd ∈ page.listing, fd.Inside

variable {page : ReaddirPage} {idx : ℕ} {entry : DirEntryInfo}

theorem ReaddirPage.pathOf_under (h : page.Inside root) (hname : 1 < idx → IsComponent entry.name) :
    PathBuf.Under root (page.pathOf idx entry) := by
  unfold ReaddirPage.pathOf
  split
  · exact h.dir
  · split
    · exact h.parentPath
    · exact h.dir.join (hname (by omega))

theorem ReaddirPage.statListed_keeps (h : page.Inside root)
    (hname : 1 < idx → IsComponent entry.name) :
    Safe root writable k (page.statListed idx entry) := by
  unfold ReaddirPage.statListed
  split
  · exact .require fun fd => Io.statOfFd_keeps fd
  · split
    · exact .orThrow fun _ _ => trivial
    · refine .bind (.lift fun c hc => cstring_ok hc) fun c hc => ?_
      refine .bind (.orThrow fun fd hfd => h.listing fd hfd) fun fd hfd => ?_
      exact Io.statAt_keeps hfd (hc ▸ hname (by omega))

theorem ReaddirPage.adoptGuest_keeps (node : UInt64) (prepared : Option (Stat × Option GuestAttr)) :
    Safe root writable k (ReaddirPage.adoptGuest node prepared) := by
  cases prepared with
  | none => exact .pure trivial
  | some p =>
    refine tweak_keeps fun s => .node s node fun n => ?_
    split
    · exact .of_paths rfl rfl
    · exact .of_paths rfl rfl

theorem ReaddirPage.plusRecordOf_keeps (h : page.Inside root)
    (hname : 1 < idx → IsComponent entry.name) (stat : Stat)
    (prepared : Option (Stat × Option GuestAttr)) :
    Safe root writable k (page.plusRecordOf idx entry stat prepared) := by
  have hend : ∀ node, Safe root writable k (do
      pure ((← entryOut node stat) ++ ReaddirPage.recordTail node idx entry (direntType stat))) :=
        fun node => .bind (entryOut_keeps node stat) fun _ _ => .pure trivial
  unfold ReaddirPage.plusRecordOf ReaddirPage.recordNode
  by_cases hidx : 1 < idx
  · -- only a name in the directory is counted, and its node is found or made here
    rw [if_neg (by omega), if_neg (by omega)]
    refine .of_at fun s hs => ?_
    refine (nodeFor_at stat (ReaddirPage.pathOf_under h hname) hs).bind fun node t ht _ hknown => ?_
    refine KeepsWhen.bind (P := (Known · node)) (ReaddirPage.adoptGuest_keeps node prepared)
      (fun _ _ => ?_) t ht hknown
    rw [if_pos hidx]
    intro s hs hknown
    exact change_bind hs (.remember s hknown) fun hgood => (hend node).keepsAt hgood
  · refine .bind (R := fun _ => True) ?_ fun node _ => ?_
    · exact .ite (fun _ => .pure trivial) fun _ => .ite (fun _ => .pure trivial) fun _ =>
        nodeFor_keeps stat (ReaddirPage.pathOf_under h hname)
    · refine .bind (ReaddirPage.adoptGuest_keeps node prepared) fun _ _ => ?_
      rw [if_neg hidx]
      exact hend node

theorem ReaddirPage.plusRecord_keeps (h : page.Inside root)
    (hname : 1 < idx → IsComponent entry.name) :
    Safe root writable k (page.plusRecord idx entry) := by
  have hpath := ReaddirPage.pathOf_under h hname
  have hrecord : ∀ stat prepared,
      Safe root writable k (some <$> page.plusRecordOf idx entry stat prepared) :=
    fun stat prepared => .bind (ReaddirPage.plusRecordOf_keeps h hname stat prepared) fun _ _ =>
      .pure trivial
  refine .bind get_keeps fun s _ => ?_
  split
  · exact socketNode_bind hpath fun _ => .pure trivial
  · refine .bind get_keeps fun s _ => ?_
    split
    · exact hrecord _ _
    · refine .bind (ReaddirPage.statListed_keeps h hname).attempt fun r _ => ?_
      split
      · exact hrecord _ _
      · exact .pure trivial

theorem ReaddirPage.inoAndType_keeps (h : page.Inside root)
    (hname : 1 < idx → IsComponent entry.name) :
    Safe root writable k (page.inoAndType idx entry) := by
  refine .ite (fun _ => .pure trivial) fun _ => .bind get_keeps fun s _ => ?_
  split
  · exact .pure trivial
  · refine .bind (ReaddirPage.statListed_keeps h hname).attempt fun r _ => ?_
    split
    · exact .pure trivial
    · exact .pure trivial

theorem ReaddirPage.record_keeps (h : page.Inside root)
    (hname : 1 < idx → IsComponent entry.name) : Safe root writable k (page.record idx entry) := by
  refine .ite (fun _ => ReaddirPage.plusRecord_keeps h hname) fun _ => ?_
  refine .bind (ReaddirPage.inoAndType_keeps h hname) fun r _ => ?_
  split
  · exact .pure trivial
  · exact .pure trivial

theorem ReaddirPage.records_keeps (h : page.Inside root) {batch : List (ℕ × DirEntryInfo)}
    (hbatch : PageOk batch) (out : Bytes) : Safe root writable k (page.records batch out) := by
  induction batch generalizing out with
  | nil => exact .pure trivial
  | cons e rest ih =>
    have hrest : PageOk rest := fun e' he' => hbatch e' (List.mem_cons_of_mem _ he')
    refine .ite (fun _ => .pure trivial) fun _ => ?_
    refine .bind (ReaddirPage.record_keeps h (hbatch e List.mem_cons_self)) fun r _ => ?_
    split
    · exact ih hrest _
    · exact ih hrest _

/-! ### READDIR -/

theorem requestSubdirs_keeps (hk : k.prepared = true) (dir : PathBuf) {listing : Option Fd}
    {batch : List (ℕ × DirEntryInfo)} (hlisting : ∀ fd ∈ listing, fd.Inside)
    (hbatch : PageOk batch) : Safe root writable k (requestSubdirs dir listing batch) := by
  cases listing with
  | none => exact .pure trivial
  | some fd =>
    refine .bind (Io.dupCloexec_keeps fd).attempt fun r hr => ?_
    split
    · next parent =>
      have hparent : parent.Inside := (hr parent rfl).1 (hlisting fd rfl)
      refine .forEach fun e he => .ite (fun _ => .pure trivial) fun hsub => ?_
      push Not at hsub
      have hname := hbatch e (List.mem_reverse.mp he) hsub.1
      split
      · next name hcstring =>
        rw [← cstring_ok hcstring] at hname
        refine Keeps.weaken (Io.ask_keeps fun x => ⟨?_, nofun, fun _ => hk, nofun⟩) fun _ _ =>
          trivial
        intro entry hentry
        rw [List.mem_singleton.mp hentry]
        exact ⟨hparent, hname⟩
      · exact .pure trivial
    · exact .pure trivial

theorem warmDir_keeps (h : PathBuf.Under root dir) : Safe root writable k (warmDir dir) := by
  refine .bind get_keeps fun s hs => ?_
  split
  · next relative hrel =>
    rw [hs.root_eq] at hrel
    exact .bind (onDirs_keeps (DirCache.dirFd_keeps (h.below hrel))).attempt fun _ _ =>
      .pure trivial
  · exact .pure trivial

theorem readdir_keeps (hk : k.prepared = true) (node : UInt64) (input : Bytes) (capacity : ℕ)
    (plus : Bool) : Safe root writable k (readdir node input capacity plus) := by
  refine .bind (u64At_keeps input 0) fun fh _ => .bind (u64At_keeps input 8) fun offset _ => ?_
  refine .bind (u32At_keeps input 16) fun requested _ => .bind (nodePath_keeps node) fun dir hdir =>
    ?_
  refine .bind get_keeps fun s _ => .guard fun _ => .bind get_keeps fun s hs => ?_
  refine .bind (warmDir_keeps hdir) fun _ _ => ?_
  have hparent : PathBuf.Under root (if dir = s.root then s.root else dir.parent.getD s.root) := by
    rw [hs.root_eq]
    split
    · exact PathBuf.under_root root
    · next hne => exact hdir.parent hne
  extract_lets parentPath
  refine .bind (R := fun _ => True) (.ite (fun _ => ?_) fun _ => .pure trivial) fun parentStat _ =>
    ?_
  · exact .bind (statInExport_keeps hparent) fun _ _ => .pure trivial
  refine .bind (R := fun _ => True) ?_ fun parentNode _ => ?_
  · cases parentStat with
    | none => exact .pure trivial
    | some stat => exact .ite (fun _ => nodeFor_keeps stat hparent) fun _ => .pure trivial
  refine .bind (pageFor_keeps hk node fh plus _ _ hdir) fun batch hbatch => ?_
  refine .bind (listingFdFor_keeps fh plus batch.1 hdir) fun listing hlisting => ?_
  refine .bind get_keeps fun s _ => ?_
  refine .whenThen (fun _ => requestSubdirs_keeps hk dir hlisting hbatch) ?_
  refine .bind (ReaddirPage.records_keeps ⟨hdir, hparent, hlisting⟩ hbatch []) fun out _ => ?_
  refine .bind (R := fun _ => True) ?_ fun _ _ => .pure trivial
  cases batch.2 with
  | none => exact .pure trivial
  | some len =>
    refine .ite (fun _ => ?_) fun _ => .pure trivial
    exact tweak_keeps fun s => .listings s id

end

end VirtioFs
