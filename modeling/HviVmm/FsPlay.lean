/-
Runs of the virtio-fs system against a host that answers by a rule.

A rule for the host's answers, `host`, makes a run of every operation: `play` serves it to
its end, and `advance` takes a worker on by some calls.  Both are runs of the system
(`serve_steps`, `work_steps`), so what they compute is reached.

The driver's part of such a run is one chain of two descriptors in guest memory, the request
and room for the reply: `ramWith`.
-/
import HviVmm.FsSystem

open CallPrograms Fuse LabelledSteps

/-! ### A host that answers by a rule -/

/-- A rule for what the host answers. -/
abbrev HostRule := (op : HostOp) → op.Ans

def HostRule.Fair (host : HostRule) : Prop := ∀ op, HostFair ⟨op, host op⟩

/-- Only what it lists a directory with can make a rule unfair. -/
theorem HostRule.fair_of_readDir {host : HostRule}
    (h : ∀ fd, HostFair ⟨.readDir fd, host (.readDir fd)⟩) : host.Fair := by
  intro op
  cases op with
  | readDir fd => exact h fd
  | _ => trivial

/-- What a call is answered, and the workers' state after it. -/
def HostRule.answer (host : HostRule) (s : ReadaheadState) : (op : HostOp) → op.Ans × ReadaheadState
  | .raRequest path parent name => ((), s.request path parent name)
  | .raTake path => s.take path
  | .raInvalidate => ((), s.invalidate)
  | op => (host op, s)

/-- The workers' state lets any answer to another call be. -/
theorem answers_plain (readahead : ReadaheadState) {op : HostOp} (h : op.isReadahead = false)
    (x : op.Ans) : readahead.Answers op x readahead := by
  cases op with
  | raRequest path parent name => cases h
  | raTake path => cases h
  | raInvalidate => cases h
  | _ => rfl

theorem HostRule.answer_answers (host : HostRule) (s : ReadaheadState) (op : HostOp) :
    s.Answers op (host.answer s op).1 (host.answer s op).2 := by
  cases op <;> rfl

theorem HostRule.answer_fair {host : HostRule} (h : host.Fair) (s : ReadaheadState) (op : HostOp) :
    HostFair ⟨op, (host.answer s op).1⟩ := by
  cases op with
  | raRequest path parent name => trivial
  | raTake path => trivial
  | raInvalidate => trivial
  | _ => exact h _

/-- Serves a program to its end. -/
def HostRule.play {α : Type} (host : HostRule) :
    ReadaheadState → Prog HostOp HostOp.Ans α → ReadaheadState × α
  | s, .ret a => (s, a)
  | s, .call op k => host.play (host.answer s op).2 (k (host.answer s op).1)

/-- Takes a program on by `n` calls. -/
def HostRule.advance {α : Type} (host : HostRule) :
    ℕ → Prog HostOp HostOp.Ans α → Prog HostOp HostOp.Ans α
  | n + 1, .call op k => host.advance n (k (host op))
  | _, p => p

/-- The next `n` calls are none the workers' state has a part in. -/
def HostRule.plainFor {α : Type} (host : HostRule) : ℕ → Prog HostOp HostOp.Ans α → Bool
  | n + 1, .call op k => !op.isReadahead && host.plainFor n (k (host op))
  | _, _ => true

/-- The call a program makes next. -/
def CallPrograms.Prog.nextOp {α : Type} : Prog HostOp HostOp.Ans α → Option HostOp
  | .ret _ => none
  | .call op _ => some op

namespace FsSystem

variable {host : HostRule} {s : FsSystem}

/-- A step of the operation at hand, with an answer that satisfies `fair` if it is a call. -/
def Serves (fair : HostCall → Prop) (l : FsEvent) : Prop :=
  (∀ op, l ≠ .start op) ∧ ∀ c, l = .call c → fair c

theorem Serves.call {fair : HostCall → Prop} {c : HostCall} (h : fair c) :
    Serves fair (.call c) := by
  refine ⟨fun _ hl => (by cases hl), fun c' hl => ?_⟩
  cases hl
  exact h

theorem Serves.silent {fair : HostCall → Prop} : Serves fair .silent :=
  ⟨fun _ hl => (by cases hl), fun _ hl => by cases hl⟩

/-- What is being served can be served to its end. -/
theorem play_steps (hfair : host.Fair) (fair : HostCall → Prop)
    (hall : ∀ s op, fair ⟨op, (host.answer s op).1⟩) {rejects : Prop}
    {p : Prog HostOp HostOp.Ans (Except Errno Unit × FsGuest)}
    (hserving : s.serving = some ⟨rejects, p⟩) :
    ∃ s', Steps Step (Serves fair) s s' ∧ s'.serving = none ∧
      s'.guest = (host.play s.readahead p).2.2 ∧ s'.readahead = (host.play s.readahead p).1 ∧
      s'.workers = s.workers := by
  induction p generalizing s with
  | ret a =>
    by_cases hr : rejects
    · exact ⟨_, .single .silent (.endRejecting hserving hr), rfl, rfl, rfl, rfl⟩
    · exact ⟨_, .single .silent (.endOther hserving hr), rfl, rfl, rfl, rfl⟩
  | call op k ih =>
    obtain ⟨s₁, hcall, hserving₁, hreadahead₁, hworkers₁⟩ : ∃ s₁,
        Step (.call ⟨op, (host.answer s.readahead op).1⟩) s s₁ ∧
        s₁.serving = some ⟨rejects, k (host.answer s.readahead op).1⟩ ∧
        s₁.readahead = (host.answer s.readahead op).2 ∧ s₁.workers = s.workers :=
      ⟨_, .call hserving (HostRule.answer_fair hfair s.readahead op)
        (host.answer_answers s.readahead op), rfl, rfl, rfl⟩
    obtain ⟨s', hsteps, hidle, hguest, hreadahead, hworkers⟩ := ih _ hserving₁
    rw [hreadahead₁] at hguest hreadahead
    exact ⟨s', (Steps.single (.call (hall _ op)) hcall).trans hsteps, hidle, hguest, hreadahead,
      hworkers.trans hworkers₁⟩

/-- What is being served can be taken on by calls that are none of the workers' business. -/
theorem advance_steps (hfair : host.Fair) {rejects : Prop}
    {p : Prog HostOp HostOp.Ans (Except Errno Unit × FsGuest)} (n : ℕ)
    (hserving : s.serving = some ⟨rejects, p⟩) (hplain : host.plainFor n p = true) :
    ∃ s', Steps Step (fun _ => True) s s' ∧ s'.serving = some ⟨rejects, host.advance n p⟩ ∧
      s'.readahead = s.readahead := by
  induction n generalizing s p with
  | zero => exact ⟨s, .refl s, by cases p <;> exact hserving, rfl⟩
  | succ n ih =>
    cases p with
    | ret a => exact ⟨s, .refl s, hserving, rfl⟩
    | call op k =>
      obtain ⟨hop, hrest⟩ := Bool.and_eq_true_iff.mp hplain
      have hanswer := answers_plain s.readahead (by simpa using hop) (host op)
      obtain ⟨s₁, hcall, hserving₁, hreadahead₁⟩ : ∃ s₁, Step (.call _) s s₁ ∧
          s₁.serving = some ⟨rejects, k (host op)⟩ ∧ s₁.readahead = s.readahead :=
        ⟨_, .call hserving (hfair op) hanswer, rfl, rfl⟩
      obtain ⟨s', hsteps, hserving', hreadahead'⟩ := ih hserving₁ hrest
      exact ⟨s', (Steps.single trivial hcall).trans hsteps, hserving',
        hreadahead'.trans hreadahead₁⟩

theorem start_step (op : FsOp) (hidle : s.serving = none) :
    ∃ s', Step (.start op) s s' ∧ s'.serving = some ⟨s.guest.Rejects op, op.serve s.guest⟩ ∧
      s'.readahead = s.readahead ∧ s'.workers = s.workers :=
  ⟨_, .start op hidle, rfl, rfl, rfl⟩

/-- **An operation can be served whole.** -/
theorem serve_steps (hfair : host.Fair) (op : FsOp) (hidle : s.serving = none) :
    ∃ s', Steps Step (fun _ => True) s s' ∧ s'.serving = none ∧
      s'.guest = (host.play s.readahead (op.serve s.guest)).2.2 ∧
      s'.readahead = (host.play s.readahead (op.serve s.guest)).1 ∧ s'.workers = s.workers := by
  obtain ⟨s₁, hstart, hserving, hreadahead, hworkers⟩ := start_step op hidle
  obtain ⟨s', hsteps, h⟩ := play_steps hfair (fun _ => True) (fun _ _ => trivial) hserving
  rw [hreadahead, hworkers] at h
  exact ⟨s', (Steps.single trivial hstart).trans (hsteps.mono fun _ _ => trivial), h⟩

theorem work_steps (hfair : host.Fair) {i : Fin 2} {job : Job} (n : ℕ)
    (hbusy : s.workers i = .busy job) :
    ∃ s' job', Steps Step (fun _ => True) s s' ∧ s'.workers i = .busy job' ∧
      job'.rest = host.advance n job.rest ∧ job'.dir = job.dir ∧
      job'.generation = job.generation ∧ s'.serving = s.serving ∧ s'.guest = s.guest ∧
      s'.readahead = s.readahead := by
  induction n generalizing s job with
  | zero =>
    exact ⟨s, job, .refl s, hbusy, by cases job.rest <;> rfl, rfl, rfl, rfl, rfl, rfl⟩
  | succ n ih =>
    cases hrest : job.rest with
    | ret a => exact ⟨s, job, .refl s, hbusy, hrest, rfl, rfl, rfl, rfl, rfl⟩
    | call op k =>
      obtain ⟨s₁, job₁, hwork, hbusy₁, hrest₁, hdir, hgen, hserving, hguest, hreadahead⟩ :
          ∃ s₁ job₁, Step (.call _) s s₁ ∧ s₁.workers i = .busy job₁ ∧ job₁.rest = k (host op) ∧
            job₁.dir = job.dir ∧ job₁.generation = job.generation ∧ s₁.serving = s.serving ∧
            s₁.guest = s.guest ∧ s₁.readahead = s.readahead :=
        ⟨_, _, .work hbusy hrest (hfair op), Function.update_self .., rfl, rfl, rfl, rfl, rfl, rfl⟩
      obtain ⟨s', job', hsteps, h⟩ := ih hbusy₁
      rw [hrest₁, hdir, hgen, hserving, hguest, hreadahead] at h
      exact ⟨s', job', (Steps.single trivial hwork).trans hsteps, h⟩

end FsSystem

/-! ### One request in guest memory -/

/-- A request: the header, then the payload. -/
def requestBytes (opcode : UInt32) (node : UInt64) (payload : Bytes) : Bytes :=
  putU32 (UInt32.ofNat (inHeaderLen + payload.length)) ++ putU32 opcode ++ putU64 1 ++
    putU64 node ++ putU32 0 ++ putU32 0 ++ putU32 0 ++ putU32 0 ++ payload

/-- Two descriptors, the second for the device to write. -/
def twoDescriptors (request reply : ℕ) : Bytes :=
  putU64 0x2000 ++ putU32 (UInt32.ofNat request) ++ putU16 1 ++ putU16 1 ++
    putU64 0x8000 ++ putU32 (UInt32.ofNat reply) ++ putU16 2 ++ putU16 0

/-- Guest memory with a request at descriptor 0 and room for its reply. -/
def ramWith (request : Bytes) (reply : ℕ) : GuestRam where
  regions := [⟨0, 0x10000⟩]
  bytes a :=
    if 0x2000 ≤ a then (request[a - 0x2000]?).getD 0
    else if 0x1000 ≤ a then ((twoDescriptors request.length reply)[a - 0x1000]?).getD 0
    else 0
  fits := by simp
  sorted := by simp

/-- The queues as the driver has set them up. -/
def smallQueue : Queue :=
  { num := 4, ready := true, desc := 0x1000, avail := 0x4000, used := 0x5000 }

/-- The driver puts a request into guest memory. -/
def FsGuest.ask (g : FsGuest) (request : Bytes) (reply : ℕ) : FsGuest where
  dev := { g.dev with transport := { queues := fun _ => smallQueue }, notified := 0 }
  mem := ramWith request reply

theorem FsGuest.outside_ask (g : FsGuest) (request : Bytes) (reply : ℕ) :
    g.Outside (g.ask request reply) := ⟨_, _, rfl⟩

theorem FsSystem.ask_step {s : FsSystem} (request : Bytes) (reply : ℕ) (hidle : s.serving = none) :
    ∃ s', Step .silent s s' ∧ s'.serving = none ∧ s'.guest = s.guest.ask request reply ∧
      s'.readahead = s.readahead ∧ s'.workers = s.workers :=
  ⟨_, .outside hidle (s.guest.outside_ask request reply), hidle, rfl, rfl, rfl⟩

/-- A request can be asked, and the server begins with it. -/
theorem FsSystem.begin_steps {s : FsSystem} (request : Bytes) (reply : ℕ)
    (hidle : s.serving = none) : ∃ s' rejects, Steps Step (fun _ => True) s s' ∧
      s'.serving = some ⟨rejects, (FsOp.request 0 0).serve (s.guest.ask request reply)⟩ ∧
      s'.readahead = s.readahead := by
  obtain ⟨s₁, hask, hidle₁, hguest, hreadahead, -⟩ := ask_step request reply hidle
  obtain ⟨s₂, hstart, hserving, hreadahead₂, -⟩ := start_step (.request 0 0) hidle₁
  rw [hguest] at hserving
  exact ⟨s₂, _, (Steps.single trivial hask).trans (.single trivial hstart), hserving,
    hreadahead₂.trans hreadahead⟩

/-- **A request can be asked and served whole.** -/
theorem FsSystem.ask_steps {host : HostRule} {s : FsSystem} (hfair : host.Fair) (request : Bytes)
    (reply : ℕ) (hidle : s.serving = none) :
    ∃ s', Steps Step (fun _ => True) s s' ∧ s'.serving = none ∧
      s'.guest =
        (host.play s.readahead ((FsOp.request 0 0).serve (s.guest.ask request reply))).2.2 ∧
      s'.readahead =
        (host.play s.readahead ((FsOp.request 0 0).serve (s.guest.ask request reply))).1 ∧
      s'.workers = s.workers := by
  obtain ⟨s₁, hask, hidle₁, hguest, hreadahead, hworkers⟩ := ask_step request reply hidle
  obtain ⟨s', hsteps, h⟩ := serve_steps hfair (.request 0 0) hidle₁
  rw [hguest, hreadahead, hworkers] at h
  exact ⟨s', (Steps.single trivial hask).trans hsteps, h⟩
