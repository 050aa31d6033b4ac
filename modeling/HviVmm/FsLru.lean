/-
The two caches of descriptors that evict the oldest: the directories of `DirCache` and the parked
descriptors of the device.

Both order their entries by a stamped queue (`StampedQueues`).  Parking a descriptor compacts the
queue each time; of the directories only a hit does, so what is forgotten between two hits adds to
the length of that queue.

* `stamped_caches` — after any operations each entry is in its queue once, an eviction takes the
  oldest, the caches keep to their limits and the queues to theirs;
* `lru_unbounded` — the queue of the directories has no bound of its own.
-/
import HviVmm.StampedQueues
import HviVmm.FsState

open StampedQueues

/-! ### Directories -/

namespace DirCache

variable {d : DirCache} {forgotten : ℕ}

theorem evictFrom_eq (d : DirCache) (order : List (PathBuf × ℕ)) :
    (oldest Prod.snd d.openDirs order = none ∧ d.evictFrom order = ({ d with lru := [] }, false)) ∨
      ∃ path rest, oldest Prod.snd d.openDirs order = some (path, rest) ∧
        d.evictFrom order = ({ d with openDirs := d.openDirs.erase path, lru := rest }, true) := by
  induction order with
  | nil => exact .inl ⟨rfl, rfl⟩
  | cons e order ih =>
    rw [oldest, evictFrom]
    by_cases h : liveStamp Prod.snd d.openDirs e.1 = some e.2
    · rw [if_pos h, if_pos (show d.stamp e.1 = some e.2 from h)]
      exact .inr ⟨e.1, order, rfl, rfl⟩
    · rw [if_neg h, if_neg (show ¬d.stamp e.1 = some e.2 from h)]
      exact ih

/-- The cache is in order, when so many entries were forgotten since the last hit. -/
structure InOrder (forgotten : ℕ) (d : DirCache) : Prop where
  inStep : InStep Prod.snd d.openDirs d.lru d.ticks
  limit : 0 < d.limit
  fits : d.openDirs.len ≤ d.limit
  short : d.lru.length + d.limit ≤ 4 * d.limit + d.openDirs.len + forgotten

/-- An eviction takes the oldest entry, if there is one. -/
theorem InOrder.evictOne (h : d.InOrder forgotten) :
    d.evictOne.1.InOrder forgotten ∧
      RemovesOldest Prod.snd d.openDirs d.evictOne.1.openDirs d.evictOne.2 ∧
      d.evictOne.1.limit = d.limit ∧ d.evictOne.1.openDirs.Sub d.openDirs ∧
      (d.evictOne.2 = true → d.evictOne.1.openDirs.len < d.openDirs.len) := by
  unfold DirCache.evictOne
  rcases d.evictFrom_eq d.lru with ⟨hnone, hevict⟩ | ⟨path, rest, hsome, hevict⟩
  · have hempty := h.inStep.oldest_none hnone
    rw [hevict]
    refine ⟨⟨hempty ▸ .empty, h.limit, h.fits, ?_⟩, ⟨hempty, hempty⟩, rfl, .refl _,
      fun hf => by cases hf⟩
    have := h.limit
    simp only [List.length_nil]
    omega
  · obtain ⟨hremoves, hin, hlen, hmem⟩ := h.inStep.oldest_some hsome
    have hless := HashMap.len_erase_of_mem hmem
    have hfits := h.fits
    have hshort := h.short
    rw [hevict]
    exact ⟨⟨hin, h.limit, by dsimp only; omega, by dsimp only; omega⟩, hremoves, rfl,
      d.openDirs.erase_sub path, fun _ => by dsimp only; omega⟩

theorem InOrder.makeRoom {n : ℕ} (h : d.InOrder forgotten) (hn : d.openDirs.len ≤ n) :
    (makeRoom n d).InOrder forgotten ∧ (makeRoom n d).openDirs.len < (makeRoom n d).limit ∧
      (makeRoom n d).openDirs.Sub d.openDirs := by
  induction n generalizing d with
  | zero => exact ⟨h, Nat.lt_of_le_of_lt hn h.limit, .refl _⟩
  | succ n ih =>
    rw [DirCache.makeRoom]
    by_cases hfull : d.limit ≤ d.openDirs.len
    · rw [if_pos hfull]
      obtain ⟨hin, hremoves, -, hsub, hless⟩ := h.evictOne
      rcases hevict : d.evictOne with ⟨e, went⟩
      rw [hevict] at hin hremoves hsub hless
      cases went with
      | true =>
        have hsmaller : e.openDirs.len < d.openDirs.len := hless rfl
        obtain ⟨hin', hroom, hsub'⟩ := ih hin (Nat.le_of_lt_succ (hsmaller.trans_le hn))
        exact ⟨hin', hroom, hsub'.trans hsub⟩
      | false =>
        have := h.limit
        rw [hremoves.1] at hfull
        exact absurd hfull (Nat.not_le.2 this)
    · rw [if_neg hfull]
      exact ⟨h, Nat.lt_of_not_le hfull, .refl _⟩

theorem InOrder.compactLru (hstep : InStep Prod.snd d.openDirs d.lru d.ticks)
    (hpos : 0 < d.openDirs.len) (hfits : d.openDirs.len ≤ d.limit) : d.compactLru.InOrder 0 := by
  unfold DirCache.compactLru
  split
  · next hshort =>
    refine ⟨hstep, hpos.trans_le hfits, hfits, ?_⟩
    omega
  · obtain ⟨hin, hlen⟩ := hstep.compact
    refine ⟨hin, hpos.trans_le hfits, hfits, ?_⟩
    change (d.lru.filter fun e => liveStamp Prod.snd d.openDirs e.1 = some e.2).length + d.limit ≤
      4 * d.limit + d.openDirs.len + 0
    omega

theorem InOrder.touch (h : d.InOrder forgotten) {path : PathBuf} {fd : Fd × ℕ}
    (hhit : d.openDirs.lookup path = some fd) : (d.touch path).InOrder 0 := by
  have hlen : HashMap.len (d.openDirs.insert path (fd.1, d.ticks + 1)) = d.openDirs.len := by
    refine HashMap.len_eq_of_lookup (f := fun _ => ()) fun k => ?_
    by_cases hk : k = path
    · rw [hk, AList.lookup_insert, hhit]
      rfl
    · rw [AList.lookup_insert_ne hk]
  have hpos : 0 < d.openDirs.len := by
    have := HashMap.len_erase_of_mem (AList.lookup_isSome.1 (by rw [hhit]; rfl))
    omega
  unfold DirCache.touch
  dsimp only
  rw [hhit]
  refine InOrder.compactLru (h.inStep.use path rfl) ?_ ?_
  · exact hpos.trans_eq hlen.symm
  · exact hlen.trans_le h.fits

theorem InOrder.admitDir (h : d.InOrder forgotten) {path : PathBuf}
    (hmiss : d.openDirs.lookup path = none) (fd : Fd) : (d.admitDir path fd).InOrder forgotten := by
  obtain ⟨hin, hroom, hsub⟩ := h.makeRoom le_rfl
  unfold DirCache.admitDir
  generalize DirCache.makeRoom d.openDirs.len d = e at hin hroom hsub
  have hfree : path ∉ e.openDirs := by
    intro hmem
    obtain ⟨v, hv⟩ := Option.isSome_iff_exists.1 (AList.lookup_isSome.2 hmem)
    rw [hsub _ _ hv] at hmiss
    cases hmiss
  have hlen := HashMap.len_insert_of_not_mem hfree (fd, e.ticks + 1)
  have hshort := hin.short
  refine ⟨hin.inStep.use path rfl, hin.limit, ?_, ?_⟩
  · dsimp only
    omega
  · dsimp only
    rw [List.length_append, List.length_singleton]
    omega

/-- Entries are forgotten; what they have left in the queue stays. -/
theorem InOrder.forgetAll (h : d.InOrder forgotten) (paths : List PathBuf) :
    (paths.foldl forget d).InOrder
      (forgotten + (d.openDirs.len - (paths.foldl forget d).openDirs.len)) ∧
      (paths.foldl forget d).openDirs.len ≤ d.openDirs.len := by
  induction paths generalizing d forgotten with
  | nil => exact ⟨by simpa using h, le_rfl⟩
  | cons path paths ih =>
    have hle := HashMap.len_erase_le d.openDirs path
    have hone : (d.forget path).InOrder
        (forgotten + (d.openDirs.len - (d.forget path).openDirs.len)) := by
      have hshort := h.short
      have hfits := h.fits
      unfold forget
      exact ⟨h.inStep.erase path, h.limit, by dsimp only; omega, by dsimp only; omega⟩
    obtain ⟨hin, hless⟩ := ih hone
    have hstep : (d.forget path).openDirs.len ≤ d.openDirs.len := hle
    rw [List.foldl_cons]
    refine ⟨?_, hless.trans hle⟩
    rwa [show forgotten + (d.openDirs.len - (d.forget path).openDirs.len) +
      ((d.forget path).openDirs.len - (paths.foldl forget (d.forget path)).openDirs.len) =
        forgotten + (d.openDirs.len - (paths.foldl forget
          (d.forget path)).openDirs.len) by omega] at hin

/-- The caches come to by any operations, with how many entries were forgotten since the last
hit. -/
inductive Run : DirCache → ℕ → Prop
  | new (root : Fd) (limit : ℕ) (caching : Bool) : Run (new root limit caching) 0
  | hit {d : DirCache} {forgotten : ℕ} {path : PathBuf} {fd : Fd × ℕ} (h : Run d forgotten)
      (hhit : d.openDirs.lookup path = some fd) : Run (d.touch path) 0
  | miss {d : DirCache} {forgotten : ℕ} {path : PathBuf} (h : Run d forgotten)
      (hmiss : d.openDirs.lookup path = none) (fd : Fd) : Run (d.admitDir path fd) forgotten
  | uncached {d : DirCache} {forgotten : ℕ} (h : Run d forgotten) (fd : Fd) :
      Run { d with scratch := some fd } forgotten
  | forget {d : DirCache} {forgotten : ℕ} (h : Run d forgotten) (path : PathBuf) :
      Run (d.forget path) (forgotten + (d.openDirs.len - (d.forget path).openDirs.len))
  | forgetSubtree {d : DirCache} {forgotten : ℕ} (h : Run d forgotten) (path : PathBuf) :
      Run (d.forgetSubtree path)
        (forgotten + (d.openDirs.len - (d.forgetSubtree path).openDirs.len))
  | evict {d : DirCache} {forgotten : ℕ} (h : Run d forgotten) : Run d.evictOne.1 forgotten

theorem Run.inOrder (h : Run d forgotten) : d.InOrder forgotten := by
  induction h with
  | new root limit caching =>
    refine ⟨.empty, Nat.lt_of_lt_of_le Nat.zero_lt_one (Nat.le_max_right limit 1), Nat.zero_le _,
      ?_⟩
    change 0 + max limit 1 ≤ 4 * max limit 1 + 0 + 0
    omega
  | hit h hhit ih => exact ih.touch hhit
  | miss h hmiss fd ih => exact ih.admitDir hmiss fd
  | uncached h fd ih => exact { ih with }
  | forget h path ih => exact (ih.forgetAll [path]).1
  | forgetSubtree h path ih => exact (ih.forgetAll _).1
  | evict h ih => exact ih.evictOne.1

end DirCache

/-! ### Parked descriptors -/

namespace VirtioFs

variable {s t : VirtioFs}

theorem evictParkedFrom_eq (s : VirtioFs) (order : List (UInt64 × ℕ)) :
    (oldest ParkedFd.tick s.parked order = none ∧
        s.evictParkedFrom order = ({ s with parkedOrder := [] }, false)) ∨
      ∃ node rest, oldest ParkedFd.tick s.parked order = some (node, rest) ∧
        s.evictParkedFrom order =
          ({ s with parked := s.parked.erase node, parkedOrder := rest }, true) := by
  induction order with
  | nil => exact .inl ⟨rfl, rfl⟩
  | cons e order ih =>
    rw [oldest, evictParkedFrom]
    by_cases h : liveStamp ParkedFd.tick s.parked e.1 = some e.2
    · rw [if_pos h, if_pos (show s.parkedStamp e.1 = some e.2 from h)]
      exact .inr ⟨e.1, order, rfl, rfl⟩
    · rw [if_neg h, if_neg (show ¬s.parkedStamp e.1 = some e.2 from h)]
      exact ih

structure ParkedInOrder (s : VirtioFs) : Prop where
  inStep : InStep ParkedFd.tick s.parked s.parkedOrder s.parkedTicks
  fits : s.parked.len ≤ s.parkedLimit
  short : s.parkedOrder.length ≤ 4 * max s.parkedLimit 1

theorem ParkedInOrder.evictOneParked (h : s.ParkedInOrder) :
    s.evictOneParked.1.ParkedInOrder ∧
      RemovesOldest ParkedFd.tick s.parked s.evictOneParked.1.parked s.evictOneParked.2 ∧
      s.evictOneParked.1.parkedLimit = s.parkedLimit ∧
      (s.evictOneParked.2 = true → s.evictOneParked.1.parked.len < s.parked.len) := by
  unfold VirtioFs.evictOneParked
  rcases s.evictParkedFrom_eq s.parkedOrder with ⟨hnone, hevict⟩ | ⟨node, rest, hsome, hevict⟩
  · have hempty := h.inStep.oldest_none hnone
    rw [hevict]
    exact ⟨⟨hempty ▸ .empty, h.fits, Nat.zero_le _⟩, ⟨hempty, hempty⟩, rfl, fun hf => by cases hf⟩
  · obtain ⟨hremoves, hin, hlen, hmem⟩ := h.inStep.oldest_some hsome
    have hless := HashMap.len_erase_of_mem hmem
    have hfits := h.fits
    have hshort := h.short
    rw [hevict]
    exact ⟨⟨hin, by dsimp only; omega, by dsimp only; omega⟩, hremoves, rfl,
      fun _ => by dsimp only; omega⟩

theorem ParkedInOrder.makeParkedRoom {n : ℕ} (h : s.ParkedInOrder) (hn : s.parked.len ≤ n)
    (hlimit : 0 < s.parkedLimit) :
    (makeParkedRoom n s).1.ParkedInOrder ∧ (makeParkedRoom n s).2 = true ∧
      (makeParkedRoom n s).1.parked.len < (makeParkedRoom n s).1.parkedLimit := by
  induction n generalizing s with
  | zero => exact ⟨h, rfl, Nat.lt_of_le_of_lt hn hlimit⟩
  | succ n ih =>
    rw [VirtioFs.makeParkedRoom]
    by_cases hfull : s.parkedLimit ≤ s.parked.len
    · rw [if_pos hfull]
      obtain ⟨hin, hremoves, hsame, hless⟩ := h.evictOneParked
      rcases hevict : s.evictOneParked with ⟨t, went⟩
      rw [hevict] at hin hremoves hsame hless
      cases went with
      | true =>
        have hsmaller : t.parked.len < s.parked.len := hless rfl
        exact ih hin (Nat.le_of_lt_succ (hsmaller.trans_le hn)) (hsame.symm ▸ hlimit)
      | false =>
        rw [hremoves.1] at hfull
        exact absurd hfull (Nat.not_le.2 hlimit)
    · rw [if_neg hfull]
      exact ⟨h, rfl, Nat.lt_of_not_le hfull⟩

theorem ParkedInOrder.dropParked (h : s.ParkedInOrder) (node : UInt64) :
    (s.dropParked node).ParkedInOrder :=
  ⟨h.inStep.erase node, (HashMap.len_erase_le _ _).trans h.fits, h.short⟩

theorem ParkedInOrder.parkDescriptor (h : s.ParkedInOrder) (node : UInt64) (flags : UInt32)
    (attrs : HandleAttrs) (file : Fd) : (s.parkDescriptor node flags attrs file).ParkedInOrder := by
  unfold VirtioFs.parkDescriptor
  split
  · exact h
  dsimp only
  have hdrop := h.dropParked node
  generalize s.dropParked node = t at hdrop
  by_cases hlimit : t.parkedLimit = 0
  · rw [if_pos hlimit]
    exact hdrop
  · rw [if_neg hlimit]
    obtain ⟨hin, htrue, hroom⟩ := hdrop.makeParkedRoom le_rfl (Nat.pos_of_ne_zero hlimit)
    rcases hmade : VirtioFs.makeParkedRoom t.parked.len t with ⟨u, ok⟩
    rw [hmade] at hin htrue hroom
    cases htrue
    have hstep : InStep ParkedFd.tick (u.parked.insert node
        { file, flags := parkedFlagKey flags, attrs, tick := u.parkedTicks + 1 })
        (u.parkedOrder ++ [(node, u.parkedTicks + 1)]) (u.parkedTicks + 1) :=
          hin.inStep.use node rfl
    have hfits := HashMap.len_insert_le u.parked node
      { file, flags := parkedFlagKey flags, attrs, tick := u.parkedTicks + 1 }
    dsimp only at hroom
    dsimp only [compactParkedOrder]
    split
    · next hshort =>
      refine ⟨hstep, hfits.trans hroom, ?_⟩
      dsimp only
      omega
    · obtain ⟨hcompact, hlen⟩ := hstep.compact
      refine ⟨hcompact, hfits.trans hroom, hlen.trans ?_⟩
      dsimp only
      omega

/-- The devices come to by any operations on the parked descriptors, among any others. -/
inductive ParkedRun : VirtioFs → Prop
  | start {s : VirtioFs} (hparked : s.parked = ∅) (horder : s.parkedOrder = []) : ParkedRun s
  | park {s : VirtioFs} (h : ParkedRun s) (node : UInt64) (flags : UInt32) (attrs : HandleAttrs)
      (file : Fd) : ParkedRun (s.parkDescriptor node flags attrs file)
  /-- A drop, or a take: it hands the descriptor out. -/
  | drop {s : VirtioFs} (h : ParkedRun s) (node : UInt64) : ParkedRun (s.dropParked node)
  | evict {s : VirtioFs} (h : ParkedRun s) : ParkedRun s.evictOneParked.1
  | drain {s : VirtioFs} (h : ParkedRun s) : ParkedRun s.drainParked
  | other {s t : VirtioFs} (h : ParkedRun s) (hparked : t.parked = s.parked)
      (horder : t.parkedOrder = s.parkedOrder) (hticks : t.parkedTicks = s.parkedTicks)
      (hlimit : t.parkedLimit = s.parkedLimit) : ParkedRun t

theorem ParkedRun.inOrder (h : ParkedRun s) : s.ParkedInOrder := by
  induction h with
  | start hparked horder =>
    refine ⟨?_, ?_, ?_⟩
    · rw [hparked, horder]
      exact .empty
    · rw [hparked]
      exact Nat.zero_le _
    · rw [horder]
      exact Nat.zero_le _
  | park h node flags attrs file ih => exact ih.parkDescriptor node flags attrs file
  | drop h node ih => exact ih.dropParked node
  | evict h ih => exact ih.evictOneParked.1
  | drain h ih => exact ⟨.empty, Nat.zero_le _, Nat.zero_le _⟩
  | other h hparked horder hticks hlimit ih =>
    refine ⟨?_, ?_, ?_⟩
    · rw [hparked, horder, hticks]
      exact ih.inStep
    · rw [hparked, hlimit]
      exact ih.fits
    · rw [horder, hlimit]
      exact ih.short

end VirtioFs

/-! ### Both caches -/

/-- **The stamped queues.**  After any operations each entry has one element in its queue with its
stamp, an eviction takes the entry with the oldest stamp and fails only when there is none, and the
caches keep to their limits.  The queue of the parked descriptors is at most four times as long as
the limit allows entries; that of the directories too, but for what was forgotten since the last
hit. -/
theorem stamped_caches {s : VirtioFs} {d : DirCache} {forgotten : ℕ} (hparked : s.ParkedRun)
    (hdirs : d.Run forgotten) :
    ((∀ node t, s.parkedStamp node = some t → s.parkedOrder.count (node, t) = 1) ∧
        RemovesOldest ParkedFd.tick s.parked s.evictOneParked.1.parked s.evictOneParked.2 ∧
        s.parked.len ≤ s.parkedLimit ∧ s.parkedOrder.length ≤ 4 * s.parkedLimit + 4) ∧
      (∀ path t, d.stamp path = some t → d.lru.count (path, t) = 1) ∧
        RemovesOldest Prod.snd d.openDirs d.evictOne.1.openDirs d.evictOne.2 ∧
        d.openDirs.len ≤ d.limit ∧ ∀ k, forgotten ≤ k → d.lru.length ≤ 4 * d.limit + k := by
  constructor
  · have h := hparked.inOrder
    refine ⟨fun _ _ ht => h.inStep.count_eq_one ht, h.evictOneParked.2.1, h.fits, ?_⟩
    have := h.short
    omega
  · have h := hdirs.inOrder
    refine ⟨fun _ _ ht => h.inStep.count_eq_one ht, h.evictOne.2.1, h.fits, fun k hk => ?_⟩
    have hfits := h.fits
    have hshort := h.short
    omega

/-- Two directories are opened and the first is found again. -/
def warmDirs : DirCache :=
  (((DirCache.new ⟨0, .root⟩ 2 true).admitDir [[1]] ⟨1, .root⟩).admitDir [[2]] ⟨2, .root⟩).touch
    [[1]]

/-- A descriptor of the root is parked, and another one in its place. -/
def parkedTwice : VirtioFs :=
  let rootStat : Stat := { dev := 1, ino := 2, mode := 0 }
  ((VirtioFs.new [[120]] rootStat 3 true .auto {} ⟨0, 0, 1⟩ 64 16).parkDescriptor Fuse.rootId 0
    (HandleAttrs.of rootStat) ⟨5, .root⟩).parkDescriptor Fuse.rootId 0 (HandleAttrs.of rootStat)
      ⟨6, .root⟩

theorem stamped_caches_hit :
    (parkedTwice.parkedOrder.length = 2 ∧ parkedTwice.parkedOrder.count (Fuse.rootId, 2) = 1) ∧
      warmDirs.lru.length = 3 ∧ warmDirs.lru.count ([[1]], 3) = 1 ∧
        RemovesOldest Prod.snd warmDirs.openDirs warmDirs.evictOne.1.openDirs
          warmDirs.evictOne.2 := by
  have hdirs : warmDirs.Run 0 := .hit (.miss (.miss (.new ⟨0, .root⟩ 2 true) rfl _) rfl _) rfl
  have hparked : parkedTwice.ParkedRun := .park (.park (.start rfl rfl) _ _ _ _) _ _ _ _
  obtain ⟨⟨hstamps, -⟩, hdirStamps, holdest, -⟩ := stamped_caches hparked hdirs
  exact ⟨⟨rfl, hstamps Fuse.rootId 2 rfl⟩, rfl, hdirStamps [[1]] 3 rfl, holdest⟩

/-- **The queue of the directories has no bound of its own**: a directory opened and forgotten again
and again leaves an element each time, and nothing takes them out. -/
theorem lru_unbounded :
    ¬∃ c, ∀ (d : DirCache) (forgotten : ℕ), d.Run forgotten → d.lru.length ≤ 4 * d.limit + c := by
  have hgrows : ∀ n, ∃ (d : DirCache) (forgotten : ℕ), d.Run forgotten ∧ d.openDirs = ∅ ∧
      d.limit = 1 ∧ d.lru.length = n := by
    intro n
    induction n with
    | zero => exact ⟨_, 0, .new ⟨0, .root⟩ 1 true, rfl, rfl, rfl⟩
    | succ n ih =>
      obtain ⟨d, forgotten, hrun, hempty, hlimit, hlen⟩ := ih
      have hroom : DirCache.makeRoom d.openDirs.len d = d := by rw [hempty]; rfl
      have hmiss : d.openDirs.lookup [[1]] = none := by rw [hempty]; rfl
      refine ⟨_, _, .forget (.miss hrun hmiss ⟨1, .root⟩) [[1]], ?_⟩
      rw [DirCache.admitDir, hroom, DirCache.forget, hempty]
      refine ⟨rfl, hlimit, ?_⟩
      dsimp only
      rw [List.length_append, hlen, List.length_singleton]
  rintro ⟨c, hbound⟩
  obtain ⟨d, forgotten, hrun, -, hlimit, hlen⟩ := hgrows (4 + c + 1)
  have := hbound d forgotten hrun
  omega
