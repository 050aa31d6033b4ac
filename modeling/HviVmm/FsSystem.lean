/-
The virtio-fs server and its readahead workers, step by step.

One thread at a time serves, under the device lock: it begins an operation, makes its host
calls one by one and ends.  Two workers take directories from the queue, make their host calls
without any lock and publish what they read.  The steps of the three interleave in any way.
What a host call is answered is not determined; what the workers' state is asked is.

A clock counts the steps, for what is said about the order of things: when a worker made its
first host call for a directory, when the last invalidate was completed, and when the last
request ended that may have changed something.

* `Inv` — what holds of every state reached (`Reachable.inv`);
* `step_inv` — every step keeps it, and every host call, of the server or of a worker, is one the
  export allows.
-/
import HviVmm.FsReadaheadKeep
import HviVmm.FsRequests
import HviVmm.LabelledSteps

open CallPrograms Fuse LabelledSteps

/-- The operation being served, and what is left of it. -/
structure Serving where
  /-- The request is one that `request_is_read_only` rejects, or a direct WRITE. -/
  rejects : Prop
  rest : Prog HostOp HostOp.Ans (Except Errno Unit × FsGuest)

/-- A directory a worker is reading. -/
structure Job where
  dir : QueuedDir
  generation : ℕ
  /-- When the first host call for it was made. -/
  started : Option ℕ
  rest : Prog HostOp HostOp.Ans (Except Errno (Option (Fd × PreparedDir)) × Unit)

inductive Worker where
  | idle
  | busy (job : Job)
  | exited

/-- A worker begins with the directory it has taken, if it has to be read. -/
def Worker.begin (generation : ℕ) : Option QueuedDir → Worker
  | none => .idle
  | some dir => .busy
    { dir, generation, started := none, rest := Readahead.prepare dir.parent dir.name () }

structure FsSystem where
  guest : FsGuest
  serving : Option Serving := none
  readahead : ReadaheadState := {}
  workers : Fin 2 → Worker := fun _ => .idle
  clock : ℕ := 0
  lastInvalidate : ℕ := 0
  /-- When the last request ended that may have changed something. -/
  lastEnd : ℕ := 0

/-- What a worker has read, dated. -/
def Job.result (job : Job) (r : Except Errno (Option (Fd × PreparedDir))) :
    Option (Fd × PreparedDir) :=
  match r with
  | .ok (some (dirFd, prepared)) => some (dirFd, { prepared with born := job.started.getD 0 })
  | _ => none

/-- How the workers' state answers a call.  It has no part in the others. -/
def ReadaheadState.Answers (s : ReadaheadState) : (op : HostOp) → op.Ans → ReadaheadState → Prop
  | .raRequest path parent name, _, s' => s' = s.request path parent name
  | .raTake path, x, s' => (x, s') = s.take path
  | .raInvalidate, _, s' => s' = s.invalidate
  | _, _, s' => s' = s

/-- What can be seen of a step: the operation it begins or the host call it makes. -/
inductive FsEvent where
  | start (op : FsOp)
  | call (c : HostCall)
  | silent

/-- What is assumed of the host: a directory lists names, which are not empty and hold no `/`. -/
def HostFair : HostCall → Prop
  | ⟨.readDir _, .ok records⟩ => ∀ r ∈ records, r.name ≠ [] ∧ slash ∉ r.name
  | _ => True

namespace FsSystem

/-- One step. -/
inductive Step : FsEvent → FsSystem → FsSystem → Prop
  /-- Between two operations the driver writes to memory and registers. -/
  | outside {s : FsSystem} {guest : FsGuest} (hidle : s.serving = none)
      (h : s.guest.Outside guest) : Step .silent s { s with guest, clock := s.clock + 1 }
  | start {s : FsSystem} (op : FsOp) (hidle : s.serving = none) :
      Step (.start op) s { s with
        serving := some ⟨s.guest.Rejects op, op.serve s.guest⟩, clock := s.clock + 1 }
  | call {s : FsSystem} {rejects : Prop} {op : HostOp} {x : op.Ans}
      {k : op.Ans → Prog HostOp HostOp.Ans (Except Errno Unit × FsGuest)}
        {readahead : ReadaheadState}
      (hserving : s.serving = some ⟨rejects, .call op k⟩) (hfair : HostFair ⟨op, x⟩)
      (hanswer : s.readahead.Answers op x readahead) :
      Step (.call ⟨op, x⟩) s { s with
        serving := some ⟨rejects, k x⟩
        readahead
        clock := s.clock + 1
        lastInvalidate := if op = .raInvalidate then s.clock + 1 else s.lastInvalidate }
  | endRejecting {s : FsSystem} {rejects : Prop} {r : Except Errno Unit} {guest : FsGuest}
      (hserving : s.serving = some ⟨rejects, .ret (r, guest)⟩) (h : rejects) :
      Step .silent s { s with
        serving := none, guest, clock := s.clock + 1, lastEnd := s.clock + 1 }
  | endOther {s : FsSystem} {rejects : Prop} {r : Except Errno Unit} {guest : FsGuest}
      (hserving : s.serving = some ⟨rejects, .ret (r, guest)⟩) (h : ¬rejects) :
      Step .silent s { s with serving := none, guest, clock := s.clock + 1 }
  /-- A worker takes a directory and begins with it, unless it can be dropped. -/
  | pop {s : FsSystem} {i : Fin 2} {got : Option QueuedDir} {readahead : ReadaheadState}
      (hidle : s.workers i = .idle) (hstopped : s.readahead.stopped = false)
      (hpop : s.readahead.pop = some (got, readahead)) :
      Step .silent s { s with
        readahead
        workers := Function.update s.workers i (.begin readahead.generation got)
        clock := s.clock + 1 }
  | work {s : FsSystem} {i : Fin 2} {job : Job} {op : HostOp} {x : op.Ans}
      {k : op.Ans → Prog HostOp HostOp.Ans (Except Errno (Option (Fd × PreparedDir)) × Unit)}
      (hbusy : s.workers i = .busy job) (hrest : job.rest = .call op k)
      (hfair : HostFair ⟨op, x⟩) :
      Step (.call ⟨op, x⟩) s { s with
        workers := Function.update s.workers i (.busy
          { job with rest := k x, started := some (job.started.getD (s.clock + 1)) })
        clock := s.clock + 1 }
  | publish {s : FsSystem} {i : Fin 2} {job : Job}
      {r : Except Errno (Option (Fd × PreparedDir))} (hbusy : s.workers i = .busy job)
      (hrest : job.rest = .ret (r, ())) :
      Step .silent s { s with
        readahead := s.readahead.publish job.dir job.generation (job.result r)
        workers := Function.update s.workers i .idle
        clock := s.clock + 1 }
  | stop {s : FsSystem} :
      Step .silent s { s with
        readahead := { s.readahead with stopped := true }, clock := s.clock + 1 }
  | exit {s : FsSystem} {i : Fin 2} (hidle : s.workers i = .idle)
      (hstopped : s.readahead.stopped = true) :
      Step .silent s { s with
        workers := Function.update s.workers i .exited, clock := s.clock + 1 }

/-- The system as it starts, with any memory. -/
def Init (dev : VirtioFs) (s : FsSystem) : Prop :=
  ∃ mem, s = { guest := { dev, mem } }

/-- The states a device that starts as `dev` comes to. -/
def Reachable (dev : VirtioFs) (s : FsSystem) : Prop :=
  ∃ s₀, Init dev s₀ ∧ Steps Step (fun _ => True) s₀ s

/-! ### The invariant -/

/-- Begun after the last request that may have changed something. -/
def Live (lastEnd born : ℕ) : Prop := lastEnd < born

/-- What is said of a prepared listing: its names stay in the directory, and it was begun after
the last invalidate and after the last request that may have changed something. -/
structure PreparedOk (lastInvalidate lastEnd : ℕ) (prepared : PreparedDir) : Prop where
  names : ∀ e ∈ prepared.entries, IsComponent e.info.name
  born : lastInvalidate < prepared.born
  live : Live lastEnd prepared.born

/-- What is said of a worker's directory, under the current generation. -/
structure JobOk (generation lastInvalidate lastEnd : ℕ) (job : Job) : Prop where
  inside : job.dir.parent.Inside ∧ IsComponent job.dir.name
  generation_le : job.generation ≤ generation
  /-- Before its first call it has all its work before it. -/
  fresh : job.started = none → job.rest = Readahead.prepare job.dir.parent job.dir.name ()
  started : job.generation = generation → ∀ t, job.started = some t →
    lastInvalidate < t ∧ Live lastEnd t
  rest : job.rest.Ensures ({} : Kind).Fair ({} : Kind).Permits fun r =>
    ∀ dirFd prepared, r.1 = .ok (some (dirFd, prepared)) →
      dirFd.Inside ∧ ∀ e ∈ prepared.entries, IsComponent e.info.name

/-- Nothing is prepared, nothing is queued and no worker's directory will be kept. -/
structure Quiet (readahead : ReadaheadState) (workers : Fin 2 → Worker) : Prop where
  queue : readahead.queue = []
  cache : readahead.cache = ∅
  workers : ∀ i job, workers i = .busy job → job.generation ≠ readahead.generation

/-- What is said of the operation being served. -/
inductive ServingOk (root : PathBuf) (writable : Bool) (readahead : ReadaheadState)
    (workers : Fin 2 → Worker) (lastEnd : ℕ) : Serving → Prop
  | other {rejects : Prop} {rest : Prog HostOp HostOp.Ans (Except Errno Unit × FsGuest)}
      (h : ¬rejects)
      (hrest : rest.Ensures (Kind.any writable (Live lastEnd)).Fair
        (Kind.any writable (Live lastEnd)).Permits
        fun r => r.2.dev.Good root writable (Live lastEnd)) :
      ServingOk root writable readahead workers lastEnd ⟨rejects, rest⟩
  /-- It has not yet dropped what was prepared. -/
  | before {rejects : Prop} {rest : Prog HostOp HostOp.Ans (Except Errno Unit × FsGuest)}
      (h : rejects)
      (hrest : rest.Starts .raInvalidate (Kind.alone writable).Fair (Kind.alone writable).Permits
        fun r => r.2.dev.Good root writable fun _ => False) :
      ServingOk root writable readahead workers lastEnd ⟨rejects, rest⟩
  /-- It has, and nothing is prepared until it ends. -/
  | after {rejects : Prop} {rest : Prog HostOp HostOp.Ans (Except Errno Unit × FsGuest)}
      (h : rejects) (hquiet : Quiet readahead workers)
      (hrest : rest.Ensures (Kind.alone writable).Fair (Kind.alone writable).Permits
        fun r => r.2.dev.Good root writable fun _ => False) :
      ServingOk root writable readahead workers lastEnd ⟨rejects, rest⟩

structure Inv (root : PathBuf) (writable : Bool) (s : FsSystem) : Prop where
  readahead : s.readahead.Ok (PreparedOk s.lastInvalidate s.lastEnd)
  jobs : ∀ i job, s.workers i = .busy job →
    JobOk s.readahead.generation s.lastInvalidate s.lastEnd job
  guest : s.serving = none → s.guest.dev.Good root writable (Live s.lastEnd)
  serving : ∀ t, s.serving = some t → ServingOk root writable s.readahead s.workers s.lastEnd t
  clock : s.lastInvalidate ≤ s.clock ∧ s.lastEnd ≤ s.clock

variable {root : PathBuf} {writable : Bool} {s s' : FsSystem} {l : FsEvent}
variable {readahead readahead' : ReadaheadState} {lastEnd : ℕ} {op : HostOp} {k : Kind}
  {workers : Fin 2 → Worker} {t : Serving} {job : Job} {i : Fin 2}

/-- What the state of the workers answers is what the kind assumes of it. -/
theorem fair_any {lastInvalidate : ℕ} {x : op.Ans}
    (hok : readahead.Ok (PreparedOk lastInvalidate lastEnd)) (hfair : HostFair ⟨op, x⟩)
    (hanswer : readahead.Answers op x readahead') :
    (Kind.any writable (Live lastEnd)).Fair ⟨op, x⟩ := by
  unfold Kind.Fair
  split
  · next fd records heq =>
    cases heq
    exact hfair
  · next path prepared heq =>
    cases heq
    have htake : (some prepared, readahead') = readahead.take path := hanswer
    have hprepared := (ReadaheadState.take_ok hok path).2 prepared (by rw [← htake])
    exact ⟨hprepared.names, hprepared.live⟩
  · exact fun _ => trivial
  · exact fun _ => trivial
  · exact fun _ => trivial
  · trivial

/-- Apart from what the workers are asked, a fair host is all a kind assumes that takes any file. -/
theorem fair_host {c : HostCall} (hfiles : ∀ fd, k.files fd) (hfair : HostFair c)
    (hask : c.op.asksWorkers = false) : k.Fair c := by
  unfold Kind.Fair
  split
  · exact hfair
  · cases hask
  · exact fun _ => hfiles _
  · exact fun _ => hfiles _
  · exact fun _ => hfiles _
  · trivial

/-- A program of a kind without the workers asks them for nothing. -/
theorem asks_nothing {α : Type} (hk : k.prepared = false) {f : op.Ans → Prog HostOp HostOp.Ans α}
    {Q : α → Prop} (h : (Prog.call op f).Ensures k.Fair k.Permits Q) : op.asksWorkers = false := by
  have hnone : ∀ x, k.Fair ⟨op, x⟩ → op.asksWorkers = false := by
    intro x hx
    cases hask : op.asksWorkers with
    | false => rfl
    | true =>
      have hprepared := (h x hx).1.prepared hask
      rw [hk] at hprepared
      cases hprepared
  cases op with
  | raRequest path parent name => exact hnone () trivial
  | raTake path => exact hnone none trivial
  | _ => rfl

/-- A call in which the workers' state has no part leaves it alone. -/
theorem answers_same {x : op.Ans} (hanswer : readahead.Answers op x readahead')
    (hask : op.asksWorkers = false) (hinvalidate : op ≠ .raInvalidate) :
    readahead' = readahead := by
  cases op with
  | raRequest path parent name => cases hask
  | raTake path => cases hask
  | raInvalidate => exact absurd rfl hinvalidate
  | _ => exact hanswer

/-- The workers' state after a permitted call: in order, of the same generation or, after an
invalidate, of the next. -/
theorem answers_ok {P : PreparedDir → Prop} {x : op.Ans} (hok : readahead.Ok P)
    (hpermits : k.Permits ⟨op, x⟩) (hanswer : readahead.Answers op x readahead')
    (hinvalidate : op ≠ .raInvalidate) :
    readahead'.Ok P ∧ readahead'.generation = readahead.generation := by
  cases op with
  | raRequest path parent name =>
    obtain rfl : readahead' = readahead.request path parent name := hanswer
    obtain ⟨hparent, hname⟩ := hpermits.inside (parent, name) (by simp [HostOp.resolves])
    exact ⟨ReadaheadState.request_ok hok path hparent hname,
      ReadaheadState.request_generation path parent name⟩
  | raTake path =>
    have htake : (x, readahead') = readahead.take path := hanswer
    obtain rfl : readahead' = (readahead.take path).2 := by rw [← htake]
    exact ⟨(ReadaheadState.take_ok hok path).1, ReadaheadState.take_generation path⟩
  | raInvalidate => exact absurd rfl hinvalidate
  | _ =>
    obtain rfl : readahead' = readahead := hanswer
    exact ⟨hok, rfl⟩

/-! ### The steps keep the invariant -/

theorem ServingOk.congr {workers' : Fin 2 → Worker}
    (h : ServingOk root writable readahead workers lastEnd t)
    (hquiet : Quiet readahead workers → Quiet readahead' workers') :
    ServingOk root writable readahead' workers' lastEnd t := by
  cases h with
  | other hr hrest => exact .other hr hrest
  | before hr hrest => exact .before hr hrest
  | after hr hq hrest => exact .after hr (hquiet hq) hrest

/-- A worker that was at it when the generation moved on. -/
theorem JobOk.invalidate {generation lastInvalidate : ℕ}
    (h : JobOk generation lastInvalidate lastEnd job) (lastInvalidate' : ℕ) :
    JobOk (generation + 1) lastInvalidate' lastEnd job where
  inside := h.inside
  generation_le := h.generation_le.trans (Nat.le_succ _)
  fresh := h.fresh
  started := by
    intro hgen
    have := h.generation_le
    omega
  rest := h.rest

theorem quiet_invalidate
    (h : ∀ i job, workers i = .busy job → job.generation ≤ readahead.generation) :
    Quiet readahead.invalidate workers where
  queue := rfl
  cache := rfl
  workers := by
    intro i job hbusy hgen
    have hle := h i job hbusy
    have : job.generation = readahead.generation + 1 := hgen
    omega

theorem invalidate_inv (h : Inv root writable s)
    (ht : Quiet s.readahead.invalidate s.workers →
    ServingOk root writable s.readahead.invalidate s.workers s.lastEnd t) :
    Inv root writable { s with
      serving := some t
      readahead := s.readahead.invalidate
      clock := s.clock + 1
      lastInvalidate := s.clock + 1 } where
  readahead := ReadaheadState.invalidate_ok
  jobs i job hbusy := (h.jobs i job hbusy).invalidate _
  guest := nofun
  serving := by
    intro t' ht'
    obtain rfl := Option.some.inj ht'
    exact ht (quiet_invalidate fun i job hbusy => (h.jobs i job hbusy).generation_le)
  clock := ⟨le_rfl, h.clock.2.trans (Nat.le_succ _)⟩

theorem otherCall_inv (h : Inv root writable s)
    (hok : readahead.Ok (PreparedOk s.lastInvalidate s.lastEnd))
    (hgen : readahead.generation = s.readahead.generation)
    (ht : ServingOk root writable readahead s.workers s.lastEnd t) :
    Inv root writable { s with
      serving := some t, readahead, clock := s.clock + 1, lastInvalidate := s.lastInvalidate } where
  readahead := hok
  jobs i job hbusy := hgen ▸ h.jobs i job hbusy
  guest := nofun
  serving := by
    intro t' ht'
    obtain rfl := Option.some.inj ht'
    exact ht
  clock := ⟨h.clock.1.trans (Nat.le_succ _), h.clock.2.trans (Nat.le_succ _)⟩

/-- A call of the serving thread is permitted, and the invariant is kept. -/
theorem call_inv (h : Inv root writable s) {rejects : Prop} {x : op.Ans}
    {k : op.Ans → Prog HostOp HostOp.Ans (Except Errno Unit × FsGuest)}
    (hserving : s.serving = some ⟨rejects, .call op k⟩) (hfair : HostFair ⟨op, x⟩)
    (hanswer : s.readahead.Answers op x readahead) :
    (Kind.any writable (Live s.lastEnd)).Permits ⟨op, x⟩ ∧
      Inv root writable { s with
        serving := some ⟨rejects, k x⟩
        readahead
        clock := s.clock + 1
        lastInvalidate := if op = .raInvalidate then s.clock + 1 else s.lastInvalidate } := by
  have hrelax : (Kind.alone writable).Permits ⟨op, x⟩ →
      (Kind.any writable (Live s.lastEnd)).Permits ⟨op, x⟩ :=
    fun hp => ⟨hp.inside, hp.change, fun _ => rfl, hp.sync⟩
  cases h.serving _ hserving with
  | other hr hrest =>
    obtain ⟨hpermits, hk⟩ := hrest x (fair_any h.readahead hfair hanswer)
    refine ⟨hpermits, ?_⟩
    by_cases hop : op = .raInvalidate
    · subst hop
      obtain rfl : readahead = s.readahead.invalidate := hanswer
      exact invalidate_inv h fun _ => .other hr hk
    · obtain ⟨hok, hgen⟩ := answers_ok h.readahead hpermits hanswer hop
      rw [if_neg hop]
      exact otherCall_inv h hok hgen (.other hr hk)
  | before hr hrest =>
    -- the first call of the request: it drops what was prepared
    obtain ⟨rfl, hk⟩ := hrest
    obtain rfl : readahead = s.readahead.invalidate := hanswer
    refine ⟨⟨nofun, nofun, nofun, nofun⟩, ?_⟩
    exact invalidate_inv h fun hquiet => .after hr hquiet (hk x)
  | after hr hquiet hrest =>
    have hask := asks_nothing rfl hrest
    obtain ⟨hpermits, hk⟩ := hrest x (fair_host (fun _ => trivial) hfair hask)
    refine ⟨hrelax hpermits, ?_⟩
    by_cases hop : op = .raInvalidate
    · subst hop
      obtain rfl : readahead = s.readahead.invalidate := hanswer
      exact invalidate_inv h fun hquiet => .after hr hquiet hk
    · obtain rfl := answers_same hanswer hask hop
      rw [if_neg hop]
      exact otherCall_inv h h.readahead rfl (.after hr hquiet hk)

/-- The end of a request that may have changed something: nothing is prepared. -/
theorem endRejecting_inv (h : Inv root writable s) {rejects : Prop} {r : Except Errno Unit}
    {guest : FsGuest} (hserving : s.serving = some ⟨rejects, .ret (r, guest)⟩) (hr : rejects) :
    Inv root writable { s with
      serving := none, guest, clock := s.clock + 1, lastEnd := s.clock + 1 } := by
  cases h.serving _ hserving with
  | other hr' _ => exact absurd hr hr'
  | before _ hrest => exact hrest.elim
  | after _ hquiet hrest =>
    have hgood : guest.dev.Good root writable fun _ => False := hrest
    exact {
      readahead := ⟨by rw [hquiet.queue]; nofun, by rw [hquiet.cache]; exact .empty⟩
      jobs := by
        intro i job hbusy
        have hjob := h.jobs i job hbusy
        exact ⟨hjob.inside, hjob.generation_le, hjob.fresh,
          fun hgen => absurd hgen (hquiet.workers i job hbusy), hjob.rest⟩
      guest := fun _ => hgood.mono fun _ hf => hf.elim
      serving := nofun
      clock := ⟨h.clock.1.trans (Nat.le_succ _), le_rfl⟩ }

theorem start_inv (h : Inv root writable s) (op : FsOp) (hidle : s.serving = none) :
    Inv root writable { s with
      serving := some ⟨s.guest.Rejects op, op.serve s.guest⟩, clock := s.clock + 1 } where
  readahead := h.readahead
  jobs := h.jobs
  guest := nofun
  serving := by
    intro t ht
    obtain rfl := Option.some.inj ht
    by_cases hr : s.guest.Rejects op
    · exact .before hr (FsOp.serve_rejecting (h.guest hidle) hr)
    · exact .other hr (FsOp.serve_ensures op (h.guest hidle))
  clock := ⟨h.clock.1.trans (Nat.le_succ _), h.clock.2.trans (Nat.le_succ _)⟩

/-- The directories of the workers after one of them has changed. -/
theorem jobs_update {P : Job → Prop} {w : Worker} (h : ∀ j job, workers j = .busy job → P job)
    (hw : ∀ job, w = .busy job → P job) :
    ∀ j job, Function.update workers i w j = .busy job → P job := by
  intro j job hbusy
  by_cases hj : j = i
  · subst hj
    rw [Function.update_self] at hbusy
    exact hw job hbusy
  · rw [Function.update_of_ne hj] at hbusy
    exact h j job hbusy

/-- A worker changes, and perhaps what the workers share. -/
theorem worker_inv (h : Inv root writable s) {w : Worker}
    (hok : readahead.Ok (PreparedOk s.lastInvalidate s.lastEnd))
    (hgen : readahead.generation = s.readahead.generation)
    (hjob : ∀ job, w = .busy job → JobOk s.readahead.generation s.lastInvalidate s.lastEnd job)
    (hquiet : Quiet s.readahead s.workers → Quiet readahead (Function.update s.workers i w)) :
    Inv root writable { s with
      readahead, workers := Function.update s.workers i w, clock := s.clock + 1 } where
  readahead := hok
  jobs := hgen ▸ jobs_update h.jobs hjob
  guest := h.guest
  serving t ht := (h.serving t ht).congr hquiet
  clock := ⟨h.clock.1.trans (Nat.le_succ _), h.clock.2.trans (Nat.le_succ _)⟩

theorem pop_inv (h : Inv root writable s) {got : Option QueuedDir}
    (hpop : s.readahead.pop = some (got, readahead)) :
    Inv root writable { s with
      readahead
      workers := Function.update s.workers i (.begin readahead.generation got)
      clock := s.clock + 1 } := by
  obtain ⟨hok, hgen, hdir⟩ := ReadaheadState.pop_ok h.readahead hpop
  refine worker_inv h hok hgen ?_ ?_
  · intro job hjob
    cases got with
    | none => cases hjob
    | some dir =>
      cases hjob
      obtain ⟨hparent, hname⟩ := hdir dir rfl
      refine ⟨⟨hparent, hname⟩, hgen.le, fun _ => rfl, fun _ t ht => (by cases ht), ?_⟩
      refine (Readahead.prepare_keeps hparent hname () trivial).imp ?_
      rintro r ⟨-, -, hr⟩ dirFd prepared hok
      exact hr _ hok dirFd prepared rfl
  · -- there is nothing to take while a request is changing things
    intro hquiet
    simp [ReadaheadState.pop, hquiet.queue] at hpop

theorem work_inv (h : Inv root writable s) {x : op.Ans}
    {k : op.Ans → Prog HostOp HostOp.Ans (Except Errno (Option (Fd × PreparedDir)) × Unit)}
    (hbusy : s.workers i = .busy job) (hrest : job.rest = .call op k) (hfair : HostFair ⟨op, x⟩) :
    ({} : Kind).Permits ⟨op, x⟩ ∧
      Inv root writable { s with
        workers := Function.update s.workers i (.busy
          { job with rest := k x, started := some (job.started.getD (s.clock + 1)) })
        clock := s.clock + 1 } := by
  have hjob := h.jobs i job hbusy
  have hensures := hjob.rest
  rw [hrest] at hensures
  obtain ⟨hpermits, hk⟩ :=
    hensures x (fair_host (fun _ => trivial) hfair (asks_nothing rfl hensures))
  refine ⟨hpermits, worker_inv h h.readahead rfl ?_ ?_⟩
  · intro job' hjob'
    cases hjob'
    refine ⟨hjob.inside, hjob.generation_le, nofun, ?_, hk⟩
    intro hgen t ht
    obtain rfl := Option.some.inj ht
    cases hstarted : job.started with
    | some t => exact hjob.started hgen t hstarted
    | none =>
      -- the first call is made now
      have := h.clock
      exact ⟨by simp only [Option.getD_none]; omega, by simp only [Live, Option.getD_none]; omega⟩
  · intro hquiet
    refine ⟨hquiet.queue, hquiet.cache, jobs_update hquiet.workers ?_⟩
    intro job' hjob'
    cases hjob'
    exact hquiet.workers i job hbusy

theorem publish_inv (h : Inv root writable s) {r : Except Errno (Option (Fd × PreparedDir))}
    (hbusy : s.workers i = .busy job) (hrest : job.rest = .ret (r, ())) :
    Inv root writable { s with
      readahead := s.readahead.publish job.dir job.generation (job.result r)
      workers := Function.update s.workers i .idle
      clock := s.clock + 1 } := by
  have hjob := h.jobs i job hbusy
  have hensures := hjob.rest
  rw [hrest] at hensures
  have hresult : ∀ dirFd prepared, job.result r = some (dirFd, prepared) →
      dirFd.Inside ∧ (∀ e ∈ prepared.entries, IsComponent e.info.name) ∧
        (job.generation = s.readahead.generation →
          PreparedOk s.lastInvalidate s.lastEnd prepared) := by
    intro dirFd prepared hsome
    unfold Job.result at hsome
    split at hsome
    · next dirFd' prepared' =>
      obtain ⟨rfl, rfl⟩ := Prod.mk.inj (Option.some.inj hsome)
      obtain ⟨hfd, hnames⟩ := hensures dirFd' prepared' rfl
      refine ⟨hfd, hnames, ?_⟩
      intro hgen
      -- what has been read took at least one call
      cases hstarted : job.started with
      | none =>
        have hfresh := hjob.fresh hstarted
        rw [hrest] at hfresh
        cases hfresh
      | some t =>
        obtain ⟨hinvalidate, hlive⟩ := hjob.started hgen t hstarted
        exact ⟨hnames, hinvalidate, hlive⟩
    · cases hsome
  obtain ⟨hok, hgen⟩ := ReadaheadState.publish_ok h.readahead job.dir job.generation hresult
  refine worker_inv h hok hgen nofun ?_
  intro hquiet
  obtain ⟨hqueue, hcache, hgen'⟩ := ReadaheadState.publish_stale job.dir (job.result r)
    (hquiet.workers i job hbusy)
  refine ⟨hqueue.trans hquiet.queue, hcache.trans hquiet.cache, ?_⟩
  rw [hgen']
  exact jobs_update hquiet.workers nofun

/-- **Every step keeps the invariant**, and a host call it makes is one the export allows. -/
theorem step_inv (h : Inv root writable s) (hstep : Step l s s') :
    Inv root writable s' ∧ ∀ c, l = .call c → (Kind.any writable fun _ => True).Permits c := by
  have hany : ∀ {live : ℕ → Prop} {c : HostCall}, (Kind.any writable live).Permits c →
      (Kind.any writable fun _ => True).Permits c := fun hp => ⟨hp.1, hp.2, hp.3, hp.4⟩
  have hnone : ∀ c : HostCall, FsEvent.silent = .call c →
      (Kind.any writable fun _ => True).Permits c := fun c hc => by cases hc
  cases hstep with
  | outside hidle hout =>
    refine ⟨⟨h.readahead, h.jobs, fun _ => hout.good (h.guest hidle), h.serving, ?_⟩, hnone⟩
    exact ⟨h.clock.1.trans (Nat.le_succ _), h.clock.2.trans (Nat.le_succ _)⟩
  | start op hidle => exact ⟨start_inv h op hidle, fun c hc => by cases hc⟩
  | call hserving hfair hanswer =>
    obtain ⟨hpermits, hinv⟩ := call_inv h hserving hfair hanswer
    refine ⟨hinv, ?_⟩
    intro c hc
    obtain rfl := FsEvent.call.inj hc
    exact hany hpermits
  | endRejecting hserving hr => exact ⟨endRejecting_inv h hserving hr, hnone⟩
  | endOther hserving hr =>
    cases h.serving _ hserving with
    | other _ hrest =>
      refine ⟨⟨h.readahead, h.jobs, fun _ => hrest, nofun, ?_⟩, hnone⟩
      exact ⟨h.clock.1.trans (Nat.le_succ _), h.clock.2.trans (Nat.le_succ _)⟩
    | before hr' _ => exact absurd hr' hr
    | after hr' _ _ => exact absurd hr' hr
  | pop hidle hstopped hpop => exact ⟨pop_inv h hpop, hnone⟩
  | work hbusy hrest hfair =>
    obtain ⟨hpermits, hinv⟩ := work_inv h hbusy hrest hfair
    refine ⟨hinv, ?_⟩
    intro c hc
    obtain rfl := FsEvent.call.inj hc
    exact ⟨hpermits.inside, fun hm => (by cases hpermits.change hm),
      fun hm => rfl, fun hm => rfl⟩
  | publish hbusy hrest => exact ⟨publish_inv h hbusy hrest, hnone⟩
  | stop =>
    refine ⟨⟨h.readahead.congr rfl rfl, h.jobs, h.guest, ?_, ?_⟩, hnone⟩
    · exact fun t ht => (h.serving t ht).congr fun hq => ⟨hq.queue, hq.cache, hq.workers⟩
    · exact ⟨h.clock.1.trans (Nat.le_succ _), h.clock.2.trans (Nat.le_succ _)⟩
  | exit hidle hstopped =>
    refine ⟨worker_inv h h.readahead rfl nofun ?_, hnone⟩
    exact fun hq => ⟨hq.queue, hq.cache, jobs_update hq.workers nofun⟩

theorem new_good (root : PathBuf) (rootStat : Stat) (rootFd : ℕ) (writable : Bool)
    (cachePolicy : CachePolicy) (ids : GuestIds) (process : HostProcess) (handleLimit dirLimit : ℕ)
    (live : ℕ → Prop) :
    (VirtioFs.new root rootStat rootFd writable cachePolicy ids process handleLimit dirLimit).Good
      root writable live where
  root_eq := rfl
  writable_eq := rfl
  dirs := ⟨.root, .empty, nofun⟩
  nodes := by
    intro node n hn
    obtain ⟨-, hnode⟩ := HashMap.lookup_singleton_iff.mp hn
    intro p hp
    rw [hnode, List.mem_singleton] at hp
    rw [hp]
    exact PathBuf.under_root root
  sockets := .empty
  temporaries := .empty
  dirHandles := .empty
  listings := .empty

theorem Reachable.inv {dev : VirtioFs} (h : Reachable dev s)
    (hdev : ∀ live, dev.Good root writable live) : Inv root writable s := by
  obtain ⟨s₀, ⟨mem, rfl⟩, hsteps⟩ := h
  refine hsteps.inv (fun _ hstep hinv => (step_inv hinv hstep).1) ?_
  exact ⟨⟨nofun, .empty⟩, nofun, fun _ => hdev _, nofun, le_rfl, le_rfl⟩

end FsSystem
