/-
Invariants of the tables of virtio-fs over whole runs.

A run is a run of `FsSystem`: the driver stores to memory and registers, operations begin and make
their host calls one by one, and the workers' calls come in between.  What is assumed of a run is
assumed of the operations when they begin and of each call.

* `FsSystem.Kept` — the driver and every allowed operation keep the invariant;
* `Kept.reachable` — then every run does;
* `kept_of_steps` — for an invariant of the device alone it is enough to look at one `DevStep`.
-/
import HviVmm.FsServeKeep
import HviVmm.FsPlay

open CallPrograms Fuse LabelledSteps Relation

namespace FsSystem

variable {root : PathBuf} {writable : Bool} {allowed : FsGuest → FsOp → Prop}
    {fair : HostCall → Prop} {I : FsGuest → Prop}
variable {s : FsSystem} {dev : VirtioFs}

/-- A step in which only allowed operations begin and only fair answers are given. -/
def Under (allowed : FsGuest → FsOp → Prop) (fair : HostCall → Prop) (l : FsEvent)
    (s s' : FsSystem) : Prop :=
  Step l s s' ∧ (∀ op, l = .start op → allowed s.guest op) ∧ ∀ c, l = .call c → fair c

/-- What is known of an answer in such a run. -/
def FairAt (writable : Bool) (live : ℕ → Prop) (fair : HostCall → Prop) (c : HostCall) : Prop :=
  (Kind.any writable live).Fair c ∧ fair c

/-- Whatever the driver does and every allowed operation keeps `I`. -/
structure Kept (root : PathBuf) (writable : Bool) (allowed : FsGuest → FsOp → Prop)
    (fair : HostCall → Prop) (I : FsGuest → Prop) : Prop where
  outside : ∀ g g', I g → g.Outside g' → I g'
  serve : ∀ live g op, g.dev.Good root writable live → I g → allowed g op →
    (op.serve g).Ensures (FairAt writable live fair) (fun _ => True) fun r => I r.2

/-- `I` holds of the device, and will hold of it when the operation at hand has ended. -/
structure Keeping (root : PathBuf) (writable : Bool) (fair : HostCall → Prop) (I : FsGuest → Prop)
    (s : FsSystem) : Prop where
  sys : s.Inv root writable
  guest : I s.guest
  serving : ∀ t, s.serving = some t →
    t.rest.Ensures (FairAt writable (Live s.lastEnd) fair) (fun _ => True) fun r => I r.2

theorem Kept.step (h : Kept root writable allowed fair I) {l : FsEvent} {s' : FsSystem}
    (hs : Keeping root writable fair I s) (hstep : Under allowed fair l s s') :
    Keeping root writable fair I s' := by
  obtain ⟨hstep, hallowed, hfair⟩ := hstep
  have hinv := (step_inv hs.sys hstep).1
  cases hstep with
  | outside hidle hout =>
    refine ⟨hinv, h.outside _ _ hs.guest hout, fun t ht => ?_⟩
    cases hidle.symm.trans ht
  | start op hidle =>
    refine ⟨hinv, hs.guest, fun t ht => ?_⟩
    cases ht
    exact h.serve _ _ op (hs.sys.guest hidle) hs.guest (hallowed op rfl)
  | call hserving hhost hanswer =>
    refine ⟨hinv, hs.guest, fun t ht => ?_⟩
    cases ht
    exact (hs.serving _ hserving _ ⟨fair_any hs.sys.readahead hhost hanswer, hfair _ rfl⟩).2
  | endRejecting hserving _ => exact ⟨hinv, hs.serving _ hserving, fun t ht => by cases ht⟩
  | endOther hserving _ => exact ⟨hinv, hs.serving _ hserving, fun t ht => by cases ht⟩
  | pop => exact ⟨hinv, hs.guest, hs.serving⟩
  | work => exact ⟨hinv, hs.guest, hs.serving⟩
  | publish => exact ⟨hinv, hs.guest, hs.serving⟩
  | stop => exact ⟨hinv, hs.guest, hs.serving⟩
  | exit => exact ⟨hinv, hs.guest, hs.serving⟩

/-- The states a device that starts as `dev` comes to in such runs. -/
def ReachableUnder (allowed : FsGuest → FsOp → Prop) (fair : HostCall → Prop) (dev : VirtioFs)
    (s : FsSystem) : Prop :=
  ∃ s₀, Init dev s₀ ∧ Steps (Under allowed fair) (fun _ => True) s₀ s

/-- **A request can be asked and served whole in such a run**, if it is allowed and the host's
answers are fair. -/
theorem ReachableUnder.ask {host : HostRule} (h : ReachableUnder allowed fair dev s)
    (hfair : host.Fair) (hall : ∀ s op, fair ⟨op, (host.answer s op).1⟩) (request : Bytes)
    (reply : ℕ) (hallowed : allowed (s.guest.ask request reply) (.request 0 0))
    (hidle : s.serving = none) :
    ∃ s', ReachableUnder allowed fair dev s' ∧ s'.serving = none ∧
      s'.guest =
        (host.play s.readahead ((FsOp.request 0 0).serve (s.guest.ask request reply))).2.2 ∧
      s'.readahead =
        (host.play s.readahead ((FsOp.request 0 0).serve (s.guest.ask request reply))).1 := by
  obtain ⟨s₀, hinit, hsteps⟩ := h
  obtain ⟨s₁, hask, hidle₁, hguest, hreadahead, -⟩ := ask_step request reply hidle
  obtain ⟨s₂, hstart, hserving, hreadahead₂, -⟩ := start_step (.request 0 0) hidle₁
  obtain ⟨s', hplay, hidle', hguest', hreadahead', -⟩ := play_steps hfair fair hall hserving
  rw [hguest, hreadahead₂, hreadahead] at hguest' hreadahead'
  have hask' : Under allowed fair .silent s s₁ :=
    ⟨hask, fun _ hl => (by cases hl), fun _ hl => by cases hl⟩
  have hstart' : Under allowed fair (.start (.request 0 0)) s₁ s₂ := by
    refine ⟨hstart, fun op hl => ?_, fun _ hl => by cases hl⟩
    cases hl
    rw [hguest]
    exact hallowed
  have hplay' : Steps (Under allowed fair) (Serves fair) s₂ s' := by
    refine hplay.simulate fun hl hstep => ⟨hstep, fun op hop => absurd hop (hl.1 op), hl.2⟩
  refine ⟨s', ⟨s₀, hinit, ?_⟩, hidle', hguest', hreadahead'⟩
  refine (hsteps.trans (.single trivial hask')).trans ((Steps.single trivial hstart').trans ?_)
  exact hplay'.mono fun _ _ => trivial

/-- **What every allowed operation keeps holds in every run.** -/
theorem Kept.reachable (h : Kept root writable allowed fair I)
    (hdev : ∀ live, dev.Good root writable live) (hinit : ∀ mem, I { dev, mem })
    (hs : ReachableUnder allowed fair dev s) : I s.guest := by
  obtain ⟨s₀, ⟨mem, rfl⟩, hsteps⟩ := hs
  have hinit : Keeping root writable fair I { guest := { dev, mem } } :=
    ⟨(show Reachable dev _ from ⟨_, ⟨mem, rfl⟩, .refl _⟩).inv hdev, hinit mem,
      fun t ht => by cases ht⟩
  exact (hsteps.inv (fun _ hstep hs => h.step hs hstep) hinit).guest

/-- **An invariant of the tables**, shown for one step of the device, of the kind of the operations
that are allowed. -/
theorem kept_of_steps {k : (ℕ → Prop) → Kind} {P : VirtioFs → Prop}
    (hmakes : ∀ live, (k live).makes = true)
    (hfair : ∀ live c, FairAt writable live fair c → (k live).Fair c)
    (hgood : ∀ live s, s.Good root writable live → P s →
      (VirtioFs.rules root writable (k live)).good s)
    (hkind : ∀ live g op, g.dev.Good root writable live → P g.dev → allowed g op →
      op.OfKind writable (k live) g)
    (hout : ∀ s transport notified, P s → P { s with transport, notified })
    (hstep : ∀ live s s', (VirtioFs.rules root writable (k live)).good s →
      VirtioFs.DevStep root writable (k live) s s' → P s → P s') :
    Kept root writable allowed fair fun g => P g.dev where
  outside g g' hg houtside := by
    obtain ⟨transport, notified, hdev⟩ := houtside
    rw [hdev]
    exact hout _ _ _ hg
  serve live g op hdev hg hallowed := by
    have hrules := hgood live g.dev hdev hg
    refine (FsOp.serve_at (hmakes live) hrules (hkind live g op hdev hg hallowed)).mono
      (hfair live) (fun _ _ => trivial) fun r hr => ?_
    -- every state on the way is in order
    suffices ∀ s, ReflTransGen (VirtioFs.DevStep root writable (k live)) g.dev s →
        (VirtioFs.rules root writable (k live)).good s ∧ P s from (this _ hr.2.1).2
    intro s hs
    induction hs with
    | refl => exact ⟨hrules, hg⟩
    | tail _ h ih => exact ⟨h.good_rules ih.1, hstep live _ _ ih.1 h ih.2⟩

end FsSystem
