/-
Readahead never serves stale data.

* `prepared_fresh` — a listing the serving thread takes was begun after the last invalidate;
  and what it takes, or has kept of such a listing, was begun after the end of the last request
  that may have changed something.
-/
import HviVmm.FsContainment

open CallPrograms Fuse LabelledSteps

namespace FsSystem

/-- Only the serving thread takes prepared listings. -/
theorem take_step {root : PathBuf} {writable : Bool} {s s' : FsSystem} {path : PathBuf}
    {prepared : PreparedDir} (h : Inv root writable s)
    (hstep : Step (.call ⟨.raTake path, some prepared⟩) s s') :
    (s.readahead.take path).1 = some prepared := by
  cases hstep with
  | call hserving hfair hanswer =>
    have htake : (some prepared, _) = s.readahead.take path := hanswer
    rw [← htake]
  | work hbusy hrest hfair =>
    have hensures := (h.jobs _ _ hbusy).rest
    rw [hrest] at hensures
    cases asks_nothing rfl hensures

/-- **Readahead never serves stale data.**  A prepared listing that `take` returns had its first
host read after the last completed invalidate and after the end of the last request that
`request_is_read_only` rejects or that is a direct WRITE; so had what an fh-0 listing keeps of one;
and such a request invalidates before any other call. -/
theorem prepared_fresh {root : PathBuf} {rootStat : Stat} {rootFd : ℕ} {writable : Bool}
    {cachePolicy : CachePolicy} {ids : GuestIds} {process : HostProcess} {handleLimit dirLimit : ℕ}
    {s : FsSystem}
      (h : Reachable (VirtioFs.new root rootStat rootFd writable cachePolicy ids process
      handleLimit dirLimit) s) :
    (∀ s' path prepared, Step (.call ⟨.raTake path, some prepared⟩) s s' →
      s.lastInvalidate < prepared.born ∧ s.lastEnd < prepared.born) ∧
    (s.serving = none → ∀ node listing, s.guest.dev.fh0Listings.lookup node = some listing →
      listing.prepared ≠ [] → s.lastEnd < listing.born) ∧
    ∀ op, s.serving = none → s.guest.Rejects op →
      ∃ k, op.serve s.guest = .call .raInvalidate k := by
  have hinv := h.inv (new_good root rootStat rootFd writable cachePolicy ids process handleLimit
    dirLimit)
  refine ⟨?_, ?_, ?_⟩
  · intro s' path prepared hstep
    have hprepared := (ReadaheadState.take_ok hinv.readahead path).2 prepared (take_step hinv hstep)
    exact ⟨hprepared.born, hprepared.live⟩
  · intro hidle node listing hlookup hne
    exact ((hinv.guest hidle).listings node listing hlookup).2 hne
  · intro op hidle hrejects
    have hstarts := FsOp.serve_rejecting (hinv.guest hidle) hrejects
    cases hserve : op.serve s.guest with
    | ret r =>
      rw [hserve] at hstarts
      exact hstarts.elim
    | call op' k =>
      rw [hserve] at hstarts
      obtain ⟨rfl, -⟩ := hstarts
      exact ⟨k, rfl⟩

end FsSystem

/-! ### A listing that is taken -/

/-- READDIRPLUS of `/x/a`, which has node 2 once the root is listed. -/
def listA : Bytes := requestBytes 44 2 (putU64 0 ++ putU64 0 ++ putU32 4096 ++ putU32 0)

/-- Whether a worker is done and has read its directory. -/
def hasRead : Prog HostOp HostOp.Ans (Except Errno (Option (Fd × PreparedDir)) × Unit) → Bool
  | .ret (.ok (some _), _) => true
  | _ => false

theorem exists_of_hasRead
    {p : Prog HostOp HostOp.Ans (Except Errno (Option (Fd × PreparedDir)) × Unit)}
    (h : hasRead p = true) : ∃ r, p = .ret (.ok (some r), ()) := by
  unfold hasRead at h
  split at h
  · next r _ => exact ⟨r, rfl⟩
  · cases h

/-- The worker is done with `/x/a` and the guest has not asked for it. -/
theorem listing_prepared :
    ∃ s prepared, FsSystem.Reachable (smallExport true) s ∧ s.serving = none ∧
      s.guest = (afterList true).2.2 ∧
      s.readahead.cache.lookup queuedA.path = some prepared := by
  obtain ⟨s₀, job, ⟨s₁, hinit, hsteps⟩, hbusy, hdir, hgen, hrest, hserving, hguest, hpop⟩ :=
    worker_begins true
  obtain ⟨s₂, job₂, hsteps₂, hbusy₂, hrest₂, hdir₂, hgen₂, hserving₂, hguest₂, hreadahead₂⟩ :=
    FsSystem.work_steps smallTree_fair 20 hbusy
  rw [hrest] at hrest₂
  have hdone : ∃ r, job₂.rest = .ret (.ok (some r), ()) := by
    have hret : hasRead (smallTree.advance 20 (Readahead.prepare queuedA.parent queuedA.name ())) =
        true := by decide +kernel
    rw [← hrest₂] at hret
    exact exists_of_hasRead hret
  obtain ⟨⟨dirFd, prepared⟩, hr⟩ := hdone
  have hskip : job₂.dir.path ∉ s₂.readahead.skip := by
    have hnone : (afterList true).1.pop.map (fun r => decide (queuedA.path ∈ r.2.skip)) =
        some false := by decide +kernel
    rw [hpop, Option.map_some, Option.some.injEq, decide_eq_false_iff_not] at hnone
    rwa [hdir₂, hdir, hreadahead₂]
  refine ⟨_, { prepared with born := job₂.started.getD 0 },
    ⟨s₁, hinit, (hsteps.trans hsteps₂).trans (.single trivial (.publish hbusy₂ hr))⟩, ?_, ?_, ?_⟩
  · exact hserving₂.trans hserving
  · exact hguest₂.trans hguest
  · have hpath : queuedA.path = job₂.dir.path := by rw [hdir₂, hdir]
    rw [hpath]
    exact ReadaheadState.publish_lookup job₂.dir dirFd _ (by rw [hgen₂, hgen, hreadahead₂]) hskip

/-- The guest lists `/x/a`, and is served what the worker has read. -/
theorem prepared_fresh_taken :
    ∃ s s' prepared, FsSystem.Reachable (smallExport true) s ∧
      FsSystem.Step (.call ⟨.raTake queuedA.path, some prepared⟩) s s' ∧
      s.lastInvalidate < prepared.born ∧ s.lastEnd < prepared.born := by
  obtain ⟨s₀, prepared, ⟨s₁, hinit, hsteps⟩, hidle, hguest, hlookup⟩ := listing_prepared
  -- the driver asks, and the server begins
  obtain ⟨s₂, rejects, hask, hserving₂, hreadahead₂⟩ := FsSystem.begin_steps listA 4096 hidle
  rw [hguest] at hserving₂
  -- three calls later it asks for the prepared listing
  obtain ⟨s, hadvance, hserving, hreadahead⟩ :=
    FsSystem.advance_steps smallTree_fair 3 hserving₂ (by decide +kernel)
  have hnext : (smallTree.advance 3
      ((FsOp.request 0 0).serve ((afterList true).2.2.ask listA 4096))).nextOp =
      some (.raTake queuedA.path) := by decide +kernel
  have htake : s.readahead.Answers (.raTake queuedA.path) (some prepared)
      (s.readahead.take queuedA.path).2 := by
    have h := ReadaheadState.take_of_lookup hlookup
    rw [← hreadahead₂, ← hreadahead] at h
    exact Prod.ext h.symm rfl
  have hreach : FsSystem.Reachable (smallExport true) s :=
    ⟨s₁, hinit, (hsteps.trans hask).trans hadvance⟩
  cases hcall : smallTree.advance 3
      ((FsOp.request 0 0).serve ((afterList true).2.2.ask listA 4096)) with
  | ret r =>
    rw [hcall] at hnext
    cases hnext
  | call op k =>
    rw [hcall] at hnext hserving
    obtain rfl := Option.some.inj hnext
    have hstep := FsSystem.Step.call hserving trivial htake
    exact ⟨s, _, prepared, hreach, hstep, (FsSystem.prepared_fresh hreach).1 _ _ _ hstep⟩
