/-
What the readahead workers share stays in order.

`ReadaheadState.Ok P` says that every queued directory is to be opened by one name under a
descriptor below the root, and that every prepared listing satisfies `P`.  Each critical
section keeps it (`*_ok`).  `prepare_keeps` is about what a worker does in between: it looks at the
host and changes nothing.

* `publish_stale` — a worker that began under another generation publishes nothing.
-/
import HviVmm.FsReadahead
import HviVmm.FsRules

open CallPrograms Fuse

namespace ReadaheadState

structure Ok (P : PreparedDir → Prop) (s : ReadaheadState) : Prop where
  queue : ∀ dir ∈ s.queue, dir.parent.Inside ∧ IsComponent dir.name
  cache : s.cache.All fun _ prepared => P prepared

variable {P : PreparedDir → Prop} {s : ReadaheadState}

/-- The queue and the cache are all that matters. -/
theorem Ok.congr {s' : ReadaheadState} (h : s.Ok P) (hqueue : s'.queue = s.queue)
    (hcache : s'.cache = s.cache) : s'.Ok P where
  queue := hqueue ▸ h.queue
  cache := hcache ▸ h.cache

/-! ### The queue -/

theorem push_ok (h : s.Ok P) {dir : QueuedDir} (hparent : dir.parent.Inside)
    (hname : IsComponent dir.name) : (s.push dir).Ok P where
  queue := by
    intro d hd
    rcases List.mem_append.mp hd with hold | hnew
    · refine h.queue d ?_
      have hmem : d ∈ s.queue.eraseP fun queued => queued.path == dir.path := by
        split at hold
        · exact List.mem_of_mem_drop hold
        · exact hold
      exact List.eraseP_subset hmem
    · rw [List.mem_singleton.mp hnew]
      exact ⟨hparent, hname⟩
  cache := h.cache

theorem queueSubdir_ok (h : s.Ok P) (path : PathBuf) {dirFd : Fd} (hfd : dirFd.Inside) (depth : ℕ)
    {entry : PreparedEntry} (hentry : IsComponent entry.info.name) :
    (queueSubdir path dirFd depth s entry).Ok P := by
  unfold queueSubdir
  dsimp only
  split
  · exact h
  · split
    · next name hname =>
      rw [cstring_ok hname]
      exact push_ok h hfd hentry
    · exact h

theorem queueSubdir_same (path : PathBuf) (dirFd : Fd) (depth : ℕ) (entry : PreparedEntry) :
    (queueSubdir path dirFd depth s entry).generation = s.generation ∧
      (queueSubdir path dirFd depth s entry).cache = s.cache := by
  unfold queueSubdir
  dsimp only
  split
  · exact ⟨rfl, rfl⟩
  · split
    · exact ⟨rfl, rfl⟩
    · exact ⟨rfl, rfl⟩

theorem queueSubdirs_ok (h : s.Ok P) (path : PathBuf) {entries : List PreparedEntry} {dirFd : Fd}
    (hfd : dirFd.Inside) (depth : ℕ) (hentries : ∀ e ∈ entries, IsComponent e.info.name) :
    (s.queueSubdirs path entries dirFd depth).Ok P := by
  unfold queueSubdirs
  have hsub : ∀ e ∈ ((entries.filter fun e => e.stat.isDir).take readaheadSubdirsPerDir).reverse,
      IsComponent e.info.name := by
    intro e he
    exact hentries e (List.mem_filter.mp (List.mem_of_mem_take (List.mem_reverse.mp he))).1
  generalize ((entries.filter fun e => e.stat.isDir).take readaheadSubdirsPerDir).reverse = subdirs
    at hsub
  -- one subdirectory after the other
  induction subdirs generalizing s with
  | nil => exact h
  | cons e subdirs ih =>
    refine ih (queueSubdir_ok h path hfd depth (hsub e List.mem_cons_self)) ?_
    exact fun e' he' => hsub e' (List.mem_cons_of_mem e he')

theorem queueSubdirs_same (path : PathBuf) (entries : List PreparedEntry) (dirFd : Fd) (depth : ℕ) :
    (s.queueSubdirs path entries dirFd depth).generation = s.generation ∧
      (s.queueSubdirs path entries dirFd depth).cache = s.cache := by
  unfold queueSubdirs
  generalize ((entries.filter fun e => e.stat.isDir).take readaheadSubdirsPerDir).reverse = subdirs
  induction subdirs generalizing s with
  | nil => exact ⟨rfl, rfl⟩
  | cons e subdirs ih =>
    obtain ⟨hgen, hcache⟩ := ih (s := queueSubdir path dirFd depth s e)
    obtain ⟨hgen', hcache'⟩ := queueSubdir_same (s := s) path dirFd depth e
    exact ⟨hgen.trans hgen', hcache.trans hcache'⟩

/-! ### The serving thread -/

theorem markServed_same (path : PathBuf) :
    (s.markServed path).generation = s.generation ∧ (s.markServed path).cache = s.cache ∧
      (s.markServed path).queue = s.queue := by
  unfold markServed
  split
  · exact ⟨rfl, rfl, rfl⟩
  · exact ⟨rfl, rfl, rfl⟩

theorem markServed_ok (h : s.Ok P) (path : PathBuf) : (s.markServed path).Ok P := by
  obtain ⟨-, hcache, hqueue⟩ := markServed_same (s := s) path
  exact h.congr hqueue hcache

theorem take_ok (h : s.Ok P) (path : PathBuf) :
    (s.take path).2.Ok P ∧ ∀ prepared, (s.take path).1 = some prepared → P prepared := by
  unfold take takePrepared
  cases hlookup : s.cache.lookup path with
  | none => exact ⟨markServed_ok h path, nofun⟩
  | some prepared =>
    have herased : ({ s with
        cache := s.cache.erase path, order := s.order.erase path } : ReadaheadState).Ok P :=
      ⟨h.queue, h.cache.erase⟩
    refine ⟨markServed_ok herased path, ?_⟩
    intro p hp
    obtain rfl := Option.some.inj hp
    exact h.cache path prepared hlookup

theorem take_generation (path : PathBuf) : (s.take path).2.generation = s.generation := by
  unfold take takePrepared
  cases s.cache.lookup path with
  | none => exact (markServed_same path).1
  | some prepared => exact (markServed_same path).1

theorem request_ok (h : s.Ok P) (path : PathBuf) {parent : Fd} {name : Name}
    (hparent : parent.Inside) (hname : IsComponent name) : (s.request path parent name).Ok P := by
  unfold request
  split
  · exact h
  · have hskip : ({ s with skip := s.skip.erase path } : ReadaheadState).Ok P := h.congr rfl rfl
    exact push_ok hskip hparent hname

theorem request_generation (path : PathBuf) (parent : Fd) (name : Name) :
    (s.request path parent name).generation = s.generation := by
  unfold request
  split
  · rfl
  · rfl

/-- Nothing is left, so what is left satisfies anything. -/
theorem invalidate_ok {Q : PreparedDir → Prop} : s.invalidate.Ok Q :=
  ⟨nofun, .empty⟩

/-! ### The workers -/

theorem clearSkip_same : s.clearSkip.generation = s.generation ∧ s.clearSkip.cache = s.cache ∧
    s.clearSkip.queue = s.queue := by
  unfold clearSkip
  split
  · exact ⟨rfl, rfl, rfl⟩
  · exact ⟨rfl, rfl, rfl⟩

/-- A worker takes a queued directory, or drops it. -/
theorem pop_ok {s' : ReadaheadState} {got : Option QueuedDir} (h : s.Ok P)
    (hpop : s.pop = some (got, s')) :
    s'.Ok P ∧ s'.generation = s.generation ∧
      ∀ dir, got = some dir → dir.parent.Inside ∧ IsComponent dir.name := by
  unfold pop at hpop
  split at hpop
  · cases hpop
  · next dir hlast =>
    have hmem : dir ∈ s.queue := List.mem_of_getLast? hlast
    have hrest : ({ s with queue := s.queue.dropLast } : ReadaheadState).Ok P :=
      ⟨fun d hd => h.queue d (List.dropLast_subset _ hd), h.cache⟩
    dsimp only at hpop
    split at hpop
    · cases hpop
      obtain ⟨hgen, hcache, hqueue⟩ := clearSkip_same (s := { s with
        queue := s.queue.dropLast, skip := s.skip.erase dir.path })
      exact ⟨hrest.congr hqueue hcache, hgen, nofun⟩
    · split at hpop
      · cases hpop
        obtain ⟨hgen, hcache, hqueue⟩ := clearSkip_same (s := { s with
          queue := s.queue.dropLast })
        exact ⟨hrest.congr hqueue hcache, hgen, nofun⟩
      · cases hpop
        refine ⟨hrest.congr rfl rfl, rfl, ?_⟩
        intro d hd
        obtain rfl := Option.some.inj hd
        exact h.queue dir hmem

theorem evict_ok {cache : HashMap PathBuf PreparedDir} (h : cache.All fun _ prepared => P prepared)
    (order : List PathBuf) : (evict order cache).2.All fun _ prepared => P prepared := by
  induction order generalizing cache with
  | nil => exact h
  | cons oldest order ih =>
    rw [evict]
    split
    · exact ih h.erase
    · exact h

/-- What a worker read under the current generation is kept. -/
theorem publish_ok (h : s.Ok P) (dir : QueuedDir) (generation : ℕ)
    {result : Option (Fd × PreparedDir)}
    (hresult : ∀ dirFd prepared, result = some (dirFd, prepared) →
      dirFd.Inside ∧ (∀ e ∈ prepared.entries, IsComponent e.info.name) ∧
        (generation = s.generation → P prepared)) :
    (s.publish dir generation result).Ok P ∧
      (s.publish dir generation result).generation = s.generation := by
  unfold publish
  obtain ⟨hgen, hcache, hqueue⟩ := clearSkip_same (s := { s with
    inFlight := s.inFlight.erase dir.path, skip := s.skip.erase dir.path })
  have hclear : (clearSkip { s with
      inFlight := s.inFlight.erase dir.path, skip := s.skip.erase dir.path }).Ok P :=
    h.congr hqueue hcache
  dsimp only
  generalize clearSkip { s with
    inFlight := s.inFlight.erase dir.path, skip := s.skip.erase dir.path } = s₁ at *
  split
  · exact ⟨hclear, hgen⟩
  · next dirFd prepared =>
    obtain ⟨hfd, hentries, hP⟩ := hresult dirFd prepared rfl
    split
    · exact ⟨hclear, hgen⟩
    · next hkeep =>
      have hsame : s₁.generation = generation := by
        by_contra hne
        exact hkeep (.inr hne)
      have hP := hP (hsame.symm.trans hgen)
      -- the subdirectories are queued before the listing is kept
      have hsub : ∀ s₂ : ReadaheadState, s₂.Ok P → s₂.generation = s.generation →
          (s₂.keep dir.path prepared).Ok P ∧
            (s₂.keep dir.path prepared).generation = s.generation := by
        intro s₂ hs₂ hgen₂
        exact ⟨⟨hs₂.queue, (evict_ok hs₂.cache s₂.order).insert hP⟩, hgen₂⟩
      split
      · exact hsub _ (queueSubdirs_ok hclear dir.path hfd _ hentries)
          ((queueSubdirs_same _ _ _ _).1.trans hgen)
      · exact hsub _ hclear hgen

/-- **A worker that began under another generation publishes nothing.** -/
theorem publish_stale (dir : QueuedDir) {generation : ℕ} (result : Option (Fd × PreparedDir))
    (h : generation ≠ s.generation) :
    (s.publish dir generation result).queue = s.queue ∧
      (s.publish dir generation result).cache = s.cache ∧
      (s.publish dir generation result).generation = s.generation := by
  unfold publish
  obtain ⟨hgen, hcache, hqueue⟩ := clearSkip_same (s := { s with
    inFlight := s.inFlight.erase dir.path, skip := s.skip.erase dir.path })
  dsimp only
  split
  · exact ⟨hqueue, hcache, hgen⟩
  · rw [if_pos (.inr (by rw [hgen]; exact h.symm))]
    exact ⟨hqueue, hcache, hgen⟩

/-- A worker that began under the current generation publishes its listing. -/
theorem publish_lookup (dir : QueuedDir) {generation : ℕ} (dirFd : Fd) (prepared : PreparedDir)
    (h : generation = s.generation) (hskip : dir.path ∉ s.skip) :
    (s.publish dir generation (some (dirFd, prepared))).cache.lookup dir.path = some prepared := by
  unfold publish
  obtain ⟨hgen, -, -⟩ := clearSkip_same (s := { s with
    inFlight := s.inFlight.erase dir.path, skip := s.skip.erase dir.path })
  dsimp only
  rw [if_neg (by rw [hgen]; simp [hskip, h])]
  exact AList.lookup_insert _

theorem take_of_lookup {path : PathBuf} {prepared : PreparedDir}
    (h : s.cache.lookup path = some prepared) : (s.take path).1 = some prepared := by
  rw [take, takePrepared, h]

end ReadaheadState

/-! ### Reading a directory -/

namespace Readahead

variable {dirFd : Fd}

open Proc

/-- The rules of a worker: it looks at what is below the root. -/
def rules : Rules Unit HostOp HostOp.Ans where
  fair := ({} : Kind).Fair
  permits := ({} : Kind).Permits
  good _ := True
  moves _ _ := True
  moves_refl _ := trivial
  moves_trans _ _ := trivial

instance : Follows {} rules := ⟨fun _ h => h, fun _ h => h⟩

theorem prepareEntry_keeps {info : DirEntryInfo} (hfd : dirFd.Inside)
    (hname : IsComponent info.name) :
    Keeps rules (prepareEntry dirFd info) fun r => ∀ e ∈ r, e.info = info := by
  unfold prepareEntry
  split
  · exact .pure (by simp)
  · next name hcstring =>
    rw [cstring_ok hcstring]
    refine .bind (Io.statAt_keeps hfd hname).attempt fun r _ => ?_
    split
    · exact .pure (by simp)
    · refine .bind (Io.openEntryNofollow_keeps hfd hname).attempt fun r _ => ?_
      split
      · exact .pure (by simp)
      · refine .bind (Io.storedGuestAttr_keeps _) fun guest _ => ?_
        exact .pure (by simp)

theorem prepareEntries_keeps (hfd : dirFd.Inside) {listing : List DirEntryInfo}
    (h : ∀ info ∈ listing, IsComponent info.name) :
    Keeps rules (prepareEntries dirFd listing) fun r =>
      ∀ entries, r = some entries → ∀ e ∈ entries, IsComponent e.info.name := by
  induction listing with
  | nil =>
    refine .pure ?_
    intro entries hentries
    cases hentries
    simp
  | cons info listing ih =>
    have hinfo := h info List.mem_cons_self
    refine .bind (Io.askPlain_keeps .stopping rfl rfl rfl nofun) fun stopping _ => ?_
    refine .ite (fun _ => .pure nofun) fun _ => ?_
    refine .bind (prepareEntry_keeps hfd hinfo) fun entry hentry => ?_
    refine .bind (ih fun info' hmem => h info' (List.mem_cons_of_mem info hmem)) fun r hr => ?_
    split
    · exact .pure nofun
    · next entries =>
      refine .pure ?_
      intro all hall e he
      obtain rfl := Option.some.inj hall
      rcases List.mem_append.mp he with hnew | hold
      · rw [hentry e (Option.mem_toList.mp hnew)]
        exact hinfo
      · exact hr entries rfl e hold

/-- What a worker prepares consists of names that stay in the directory. -/
theorem prepareDir_keeps (hfd : dirFd.Inside) : Keeps rules (prepareDir dirFd) fun r =>
      ∀ prepared, r = some prepared → ∀ e ∈ prepared.entries, IsComponent e.info.name := by
  refine .bind (Io.statOfFd_keeps dirFd) fun stat _ => ?_
  refine .bind (Io.dupCloexec_keeps dirFd) fun fd _ => ?_
  refine .bind (Io.readDirAt_keeps fd) fun listing hlisting => ?_
  refine .bind (prepareEntries_keeps hfd hlisting) fun r hr => ?_
  split
  · exact .pure nofun
  · next entries =>
    refine .bind (Io.askPlain_keeps .clockWithSleep rfl rfl rfl nofun) fun readAt _ => ?_
    refine .pure ?_
    intro prepared hprepared e he
    obtain rfl := Option.some.inj hprepared
    exact hr entries rfl e ((List.mem_insertionSort _).mp he)

theorem prepare_keeps {parent : Fd} {name : Name} (hparent : parent.Inside)
    (hname : IsComponent name) :
    Keeps rules (prepare parent name) fun r => ∀ dirFd prepared, r = some (dirFd, prepared) →
      dirFd.Inside ∧ ∀ e ∈ prepared.entries, IsComponent e.info.name := by
  refine .bind (Io.openEntryNofollow_keeps hparent hname).attempt fun r hr => ?_
  split
  · exact .pure nofun
  · next dirFd =>
    have hfd := hr dirFd rfl
    refine .bind (prepareDir_keeps hfd).attempt fun r' hr' => ?_
    split
    · next prepared =>
      refine .pure ?_
      intro fd prepared hprepared
      obtain ⟨rfl, rfl⟩ := Prod.mk.inj (Option.some.inj hprepared)
      exact ⟨hfd, hr' _ rfl _ rfl⟩
    · exact .pure nofun

end Readahead
