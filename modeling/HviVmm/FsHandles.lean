/-
The budget of guest handles in virtio-fs.

`admitHandle` refuses an OPEN or OPENDIR once `openHandleCount` has come to `handleLimit`, and so
does `openOrphan`.  CREATE, TMPFILE and an OPEN that is served from a parked descriptor make a
handle without asking.

* `FsSystem.handles_within_budget` — in a run in which none of these three begins without room the
  guest never has more handles than its budget;
* `creates_exceed_budget` — CREATE alone takes a guest past the smallest budget there is.
-/
import HviVmm.FsDurability
import HviVmm.FsRuns

open CallPrograms Fuse LabelledSteps Relation

namespace VirtioFs

variable {s s' : VirtioFs}

/-- The guest has no more handles than its budget allows. -/
def WithinBudget (s : VirtioFs) : Prop := s.openHandleCount ≤ s.handleLimit

theorem WithinBudget.of_le (h : s.WithinBudget) (hcount : s'.openHandleCount ≤ s.openHandleCount)
    (hlimit : s'.handleLimit = s.handleLimit) : s'.WithinBudget := by
  unfold WithinBudget at h ⊢
  omega

theorem WithinBudget.spare (h : s.WithinBudget) (hspare : Spare s s') :
    s'.WithinBudget := h.of_le hspare.openHandleCount_eq.le hspare.handleLimit_eq

theorem WithinBudget.trims (h : s.WithinBudget) (htrims : Trims s s') : s'.WithinBudget := by
  cases htrims with
  | mk => exact h

/-- One step keeps within the budget, if handles are only made where there is room. -/
theorem Effect.withinBudget {root : PathBuf} {writable : Bool} {k : Kind}
    (hgated : k.ungated = false) (h : s.WithinBudget) (hstep : Effect root writable k s s') :
    s'.WithinBudget := by
  have hroom : Roomy k s → s.handles.len + s.dirHandles.len < s.handleLimit := by
    rintro (hk | hlt)
    · cases hgated.symm.trans hk
    · exact hlt
  cases hstep with
  | forgetPath path stat => exact h.trims (s.forgetNodePath_trims path stat)
  | forgetCount node count => exact h.trims (s.forgetCount_trims node count)
  | @removeSocket path => exact h.trims (s.removeSocket_trims path)
  | park => exact h
  | @insertHandle handle hknown hfile htmp hmade =>
    have hlen := HashMap.len_insert_le s.handles s.nextHandle handle
    have := hroom hmade
    show HashMap.len (s.handles.insert s.nextHandle handle) + s.dirHandles.len ≤ s.handleLimit
    omega
  | @insertDirHandle handle hinside hmade =>
    have hlen := HashMap.len_insert_le s.dirHandles s.nextHandle handle
    have := hroom hmade
    show s.handles.len + HashMap.len (s.dirHandles.insert s.nextHandle handle) ≤ s.handleLimit
    omega
  | @release fh handle hhandle =>
    refine WithinBudget.trims ?_ (releaseNode_trims _ handle.node)
    have hlen := HashMap.len_erase_le s.handles fh
    exact h.of_le (Nat.add_le_add_right hlen _) rfl
  | releaseDir fh =>
    have hlen := HashMap.len_erase_le s.dirHandles fh
    exact h.of_le (Nat.add_le_add_left hlen _) rfl

theorem DevStep.withinBudget {root : PathBuf} {writable : Bool} {k : Kind}
    (hgated : k.ungated = false) (h : s.WithinBudget) (hstep : DevStep root writable k s s') :
    s'.WithinBudget := by
  cases hstep with
  | change hchange =>
    cases hchange with
    | tweak htweak => exact h.spare htweak.spare
    | newNode | remember => exact h
    | effect _ heffect => exact heffect.withinBudget hgated h
  | settled | waiters | registers => exact h
  | clears _ hclears =>
    cases hclears with
    | handles => exact h.of_le (Nat.add_le_add_right (Nat.zero_le _) _) rfl
    | dirHandles => exact h.of_le (Nat.add_le_add_left (Nat.zero_le _) _) rfl
    | session => exact h

end VirtioFs

/-- A request that makes a handle without asking the budget finds room: a CREATE, a TMPFILE, or an
OPEN of a node that has a parked descriptor. -/
def FsOp.FindsRoom (g : FsGuest) : FsOp → Prop
  | .request i head => ∀ raw, g.askedWhole i head = some raw →
      VirtioFs.requestOp raw = some .create ∨ VirtioFs.requestOp raw = some .tmpfile ∨
        (VirtioFs.requestOp raw = some .openFile ∧
          (g.dev.parked.lookup (VirtioFs.requestNode raw)).isSome = true) →
      g.dev.openHandleCount < g.dev.handleLimit
  | _ => True

/-- What any request may do, where `ungated` says whether it may make a handle without room, and
`files` what comes into the tables. -/
def Kind.tables (writable ungated : Bool) (files : Fd → Prop) (live : ℕ → Prop) : Kind :=
  { Kind.any writable live with ungated, files }

theorem FsOp.ofKind_tables {root : PathBuf} {writable ungated : Bool} {files : Fd → Prop}
    {live : ℕ → Prop} {g : FsGuest} {op : FsOp} (hg : g.dev.Good root writable live)
    (h : ungated = false → op.FindsRoom g) :
      op.OfKind writable (.tables writable ungated files live) g := by
  have hany := FsOp.ofKind_any g op hg
  cases op with
  | request i head =>
    intro haccepts
    obtain ⟨hwrite, hasked⟩ := hany haccepts
    refine ⟨hwrite, fun raw hraw => (hasked raw hraw).imp_right fun ⟨hserves, hmeets⟩ => ?_⟩
    have hroomy : VirtioFs.requestOp raw = some .create ∨ VirtioFs.requestOp raw = some .tmpfile ∨
        (VirtioFs.requestOp raw = some .openFile ∧
          (g.dev.parked.lookup (VirtioFs.requestNode raw)).isSome = true) →
        g.dev.Roomy (.tables writable ungated files live) := by
      intro hop
      cases ungated with
      | true => exact .inl rfl
      | false => exact .inr (h rfl raw hraw hop)
    exact ⟨⟨hserves.change, hserves.prepared, hserves.sync, rfl⟩,
      fun hop => hroomy (hop.imp id .inl), fun hop _ hparked => hroomy (.inr (.inr ⟨hop, hparked⟩)),
      hmeets.released⟩
  | retry => trivial
  | reset => exact hany

namespace FsSystem

/-- **The guest never has more handles than its budget**, in any run in which every CREATE and
TMPFILE, and every OPEN of a node with a parked descriptor, begins while there is room. -/
theorem handles_within_budget {root : PathBuf} {rootStat : Stat} {rootFd : ℕ} {writable : Bool}
    {cachePolicy : CachePolicy} {ids : GuestIds} {process : HostProcess} {handleLimit dirLimit : ℕ}
    {s : FsSystem}
    (h : ReachableUnder (fun g op => op.FindsRoom g) (fun _ => True)
      (VirtioFs.new root rootStat rootFd writable cachePolicy ids process handleLimit dirLimit) s) :
    s.guest.dev.openHandleCount ≤ s.guest.dev.handleLimit := by
  have hkept : Kept root writable (fun g op => op.FindsRoom g) (fun _ => True)
      fun g => g.dev.WithinBudget :=
    kept_of_steps (k := .tables writable false fun _ => True) (fun _ => rfl) (fun _ _ hc => hc.1)
      (fun _ s hs _ => VirtioFs.good_of_files (fun _ => trivial) hs Bool.noConfusion)
      (fun _ _ _ hg _ hop => FsOp.ofKind_tables hg fun _ => hop) (fun _ _ _ hs => hs)
      fun _ s s' _ hstep hs => hstep.withinBudget rfl hs
  refine hkept.reachable (fun live => ?_) (fun _ => ?_) h
  · exact new_good root rootStat rootFd writable cachePolicy ids process handleLimit dirLimit live
  · exact Nat.zero_le _

end FsSystem

/-! ### CREATE at the limit -/

/-- CREATE of `f` in the root, read and write. -/
def createF : Bytes :=
  requestBytes 35 rootId (putU32 2 ++ putU32 0o644 ++ putU32 0 ++ putU32 0 ++ [102, 0])

/-- The export `/x` with the smallest budget a device is given. -/
def tightExport : VirtioFs :=
  VirtioFs.new [[120]] { dev := 1, ino := 2, mode := sIfdir ||| 0o755 } 3 true .auto {} ⟨0, 0, 1⟩ 64
    16

/-- CREATE of `f` adds a handle while there is room. -/
theorem handles_within_budget_create :
    ∃ s, FsSystem.ReachableUnder (fun g op => op.FindsRoom g) (fun _ => True) tightExport s ∧
      s.guest.dev.openHandleCount = 1 ∧ s.guest.dev.openHandleCount ≤ s.guest.dev.handleLimit := by
  have hinit : FsSystem.ReachableUnder (fun g op => op.FindsRoom g) (fun _ => True) tightExport
      { guest := { dev := tightExport, mem := ramWith [] 0 } } := ⟨_, ⟨_, rfl⟩, .refl _⟩
  have hroom : (FsOp.request 0 0).FindsRoom
      (FsGuest.ask { dev := tightExport, mem := ramWith [] 0 } createF 4096) := by
    intro raw hraw hop
    decide +kernel
  obtain ⟨s, hreach, -, hguest, -⟩ :=
    hinit.ask oneFile_fair (fun _ _ => trivial) createF 4096 hroom rfl
  refine ⟨s, hreach, ?_, FsSystem.handles_within_budget hreach⟩
  rw [hguest]
  decide +kernel

/-- The workers' state and the device after `n` times CREATE. -/
def afterCreates : ℕ → ReadaheadState × FsGuest
  | 0 => ({}, { dev := tightExport, mem := ramWith [] 0 })
  | n + 1 =>
    let r := oneFile.play (afterCreates n).1 (asked (afterCreates n).2 createF)
    (r.1, r.2.2)

theorem creates_run (n : ℕ) : ∃ s, FsSystem.Reachable tightExport s ∧ s.serving = none ∧
    s.guest = (afterCreates n).2 ∧ s.readahead = (afterCreates n).1 := by
  induction n with
  | zero => exact ⟨_, ⟨_, ⟨_, rfl⟩, .refl _⟩, rfl, rfl, rfl⟩
  | succ n ih =>
    obtain ⟨s, ⟨s₀, hinit, hsteps⟩, hidle, hguest, hreadahead⟩ := ih
    obtain ⟨s', hsteps', hidle', hguest', hreadahead', -⟩ :=
      FsSystem.ask_steps oneFile_fair createF 4096 hidle
    rw [hguest, hreadahead] at hguest' hreadahead'
    exact ⟨s', ⟨s₀, hinit, hsteps.trans hsteps'⟩, hidle', hguest', hreadahead'⟩

/-- **A guest can have more handles than its budget**: CREATE never asks for room. -/
theorem creates_exceed_budget : ∃ s, FsSystem.Reachable tightExport s ∧
    s.guest.dev.handleLimit < s.guest.dev.openHandleCount := by
  obtain ⟨s, hreach, -, hguest, -⟩ := creates_run 65
  refine ⟨s, hreach, ?_⟩
  rw [hguest]
  decide +kernel
