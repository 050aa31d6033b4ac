/-
Kicks of the KVM backend (`Kicker`, `VcpuThread::kick` and `run_vcpu` of `hypervisor::kvm`).

A vCPU thread enters itself in the table of threads and then loops: it clears `immediate_exit`,
reads the running flag, passes the checkpoint, lets the plugin look at the guest if it is vCPU 0,
and calls `KVM_RUN`.  Any thread may store a flag and then kick one vCPU or all of them.  Under the
lock of the table a kick sets the vCPU's `immediate_exit` and then sends its thread a signal.

Each action below is one load or store, one section under a lock or one system call, and the actions
interleave in any way.  What is assumed of KVM is in `KickAct.effect`: a run entered with
`immediate_exit` set, or hit by the signal, ends without executing more of the guest.

* `KickAct.Enabled`, `KickAct.effect` — when an action can be taken, and what it does;
* `Kicking.Reached` — the vCPU has read the flag of a call, or cannot enter the guest without
  reading it, kept by every step (`Reached.effect`);
* `Kicking.kick_not_lost` — a vCPU in the guest after a call that kicked it has read the call's flag
  since the store, and so has a vCPU that registered after the call.
-/
import Mathlib.Data.List.FinRange
import HviVmm.LabelledSteps

open LabelledSteps

/-! ### The threads -/

/-- What a thread stores before it kicks. -/
inductive KickFlag where
  /-- The running flag, cleared by a stop. -/
  | running
  /-- The request of a pause. -/
  | requested
  /-- A request the plugin reads at its safe point. -/
  | plugin
  deriving DecidableEq

/-- Where a vCPU thread is. -/
inductive KvmVcpuAt where
  /-- Not yet in the table of threads. -/
  | off
  /-- At the top of the loop, before the clear. -/
  | top
  /-- Before it reads the running flag. -/
  | checking
  /-- In `checkpoint`, before it reads the request. -/
  | arriving
  /-- In `checkpoint`, having seen the request. -/
  | parked
  /-- Past the checkpoint, before the plugin's hook. -/
  | safepoint
  /-- Before `KVM_RUN`. -/
  | entering
  | inGuest
  /-- Out of the run, before its exit is serviced. -/
  | exiting
  /-- Out of the loop, still in the table. -/
  | leaving
  | gone
  deriving DecidableEq

/-- Whether the vCPU thread is in the table of threads. -/
def KvmVcpuAt.isRegistered : KvmVcpuAt → Bool
  | .off | .gone => false
  | _ => true

/-- Whom a call kicks. -/
inductive KickTarget where
  | one (cpu : ℕ)
  | all
  deriving DecidableEq

/-- A store and the kicks after it. -/
structure KickCall (n : ℕ) where
  flag : KickFlag
  target : KickTarget
  /-- The vCPU whose thread makes the call, if it is a vCPU thread. -/
  self : Option (Fin n) := none

/-- How far a call has come. -/
inductive KickCallAt (n : ℕ) where
  | idle
  /-- The flag is stored, the table is not locked yet. -/
  | stored
  /-- With the lock, these vCPUs are still to be kicked. -/
  | kicking (left : List (Fin n))
  /-- With the lock, `immediate_exit` of the first is set and it is not signalled yet. -/
  | signalling (cpu : Fin n) (left : List (Fin n))
  | returned
  deriving DecidableEq

/-- From here the thread reads the flag before its next run. -/
def KvmVcpuAt.rereads (f : KickFlag) : KvmVcpuAt → Bool
  | .arriving | .parked => f != .running
  | .safepoint => f == .plugin
  | .entering | .inGuest => false
  | _ => true

/-- The threads of a VM with `n` vCPUs.  `C` names the calls that are ever made. -/
structure Kicking (n : ℕ) (C : Type*) where
  running : Bool := true
  requested : Bool := false
  plugin : Bool := false
  /-- The lock of the table of threads is held. -/
  locked : Bool := false
  immediateExit : Fin n → Bool := fun _ => false
  vcpu : Fin n → KvmVcpuAt := fun _ => .off
  call : C → KickCallAt n := fun _ => .idle
  /-- The vCPU has read the call's flag since the call stored it. -/
  seen : C → Fin n → Bool := fun _ _ => false
  /-- The vCPU was not in the table when the call returned, and had not been. -/
  late : C → Fin n → Bool := fun _ _ => false

/-- Whether the vCPU is one of those the call kicks: a thread does not kick itself. -/
def KickCall.kicks {n : ℕ} (k : KickCall n) (i : Fin n) : Bool :=
  (match k.target with
    | .one cpu => i.val == cpu
    | .all => true) && k.self != some i

theorem KickCall.kicks_iff {n : ℕ} {k : KickCall n} {i : Fin n} :
    k.kicks i = true ↔ (k.target = .all ∨ k.target = .one i) ∧ k.self ≠ some i := by
  unfold KickCall.kicks
  cases k.target with
  | all => simp
  | one cpu => simp [@eq_comm ℕ cpu]

/-- Whether the vCPU reads the flag between two runs: only vCPU 0 calls the plugin's hook. -/
def KickFlag.readBy {n : ℕ} (hasPlugin : Bool) : KickFlag → Fin n → Bool
  | .running, _ | .requested, _ => true
  | .plugin, i => hasPlugin && i.val == 0

namespace Kicking

variable {n : ℕ} {C : Type*} [DecidableEq C]

def setVcpu (s : Kicking n C) (i : Fin n) (v : KvmVcpuAt) : Kicking n C :=
  { s with vcpu := Function.update s.vcpu i v }

def setCall (s : Kicking n C) (c : C) (p : KickCallAt n) : Kicking n C :=
  { s with call := Function.update s.call c p }

/-- The vCPU loads the flag. -/
def load (calls : C → KickCall n) (s : Kicking n C) (i : Fin n) (f : KickFlag) : Kicking n C :=
  { s with seen := fun c j => s.seen c j || (j == i && f == (calls c).flag) }

/-- The flag as a call stores it. -/
def raise (s : Kicking n C) : KickFlag → Kicking n C
  | .running => { s with running := false }
  | .requested => { s with requested := true }
  | .plugin => { s with plugin := true }

end Kicking

/-! ### Actions -/

inductive KickAct (n : ℕ) (C : Type*) where
  | register (i : Fin n)
  /-- Clears `immediate_exit`. -/
  | clear (i : Fin n)
  | readRunning (i : Fin n)
  /-- `checkpoint` reads the request, on arrival or while parked. -/
  | readRequested (i : Fin n)
  /-- The plugin's hook, which takes the request it finds, or the lack of a plugin. -/
  | passSafepoint (i : Fin n)
  | run (i : Fin n)
  /-- An exit of the guest's own. -/
  | exit (i : Fin n)
  /-- The exit is serviced, and the loop goes on or is left. -/
  | handleExit (i : Fin n) (quit : Bool)
  | unregister (i : Fin n)
  /-- The request of a pause is released. -/
  | release
  | store (c : C)
  | lockTable (c : C)
  | setImmediateExit (c : C)
  | signal (c : C)
  | unlockTable (c : C)

namespace KickAct

variable {n : ℕ} {C : Type*} [DecidableEq C]

/-- The call whose step the action is. -/
def caller : KickAct n C → Option C
  | store c | lockTable c | setImmediateExit c | signal c | unlockTable c => some c
  | _ => none

/-- When the action can be taken. -/
def Enabled (s : Kicking n C) : KickAct n C → Prop
  | register i => s.vcpu i = .off ∧ s.locked = false
  | clear i => s.vcpu i = .top
  | readRunning i => s.vcpu i = .checking
  | readRequested i => s.vcpu i = .arriving ∨ s.vcpu i = .parked
  | passSafepoint i => s.vcpu i = .safepoint
  | run i => s.vcpu i = .entering
  | exit i => s.vcpu i = .inGuest
  | handleExit i _ => s.vcpu i = .exiting
  | unregister i => s.vcpu i = .leaving ∧ s.locked = false
  | release => True
  | store c => s.call c = .idle
  | lockTable c => s.call c = .stored ∧ s.locked = false
  | setImmediateExit c => ∃ i left, s.call c = .kicking (i :: left)
  | signal c => ∃ i left, s.call c = .signalling i left
  | unlockTable c => s.call c = .kicking []

/-- What the action does, where it can be taken. -/
def effect (hasPlugin : Bool) (calls : C → KickCall n) (s : Kicking n C) : KickAct n C → Kicking n C
  | register i => s.setVcpu i .top
  | clear i =>
    { s.setVcpu i .checking with immediateExit := Function.update s.immediateExit i false }
  | readRunning i =>
    (s.load calls i .running).setVcpu i (if s.running then .arriving else .leaving)
  | readRequested i =>
    (s.load calls i .requested).setVcpu i (if s.requested then .parked else .safepoint)
  | passSafepoint i =>
    if hasPlugin && i.val == 0 then
      { (s.load calls i .plugin).setVcpu i .entering with plugin := false }
    else s.setVcpu i .entering
  | run i => s.setVcpu i (if s.immediateExit i then .exiting else .inGuest)
  | exit i => s.setVcpu i .exiting
  | handleExit i quit => s.setVcpu i (if quit then .leaving else .top)
  | unregister i => s.setVcpu i .gone
  | release => { s with requested := false }
  | store c =>
    { (s.raise (calls c).flag).setCall c .stored with
      seen := Function.update s.seen c fun _ => false }
  | lockTable c =>
    { s.setCall c (.kicking ((List.finRange n).filter fun i =>
        (s.vcpu i).isRegistered && (calls c).kicks i)) with locked := true }
  | setImmediateExit c =>
    match s.call c with
    | .kicking (i :: left) =>
      { s.setCall c (.signalling i left) with
        immediateExit := Function.update s.immediateExit i true }
    | _ => s
  | signal c =>
    match s.call c with
    | .signalling i left =>
      (s.setVcpu i (if s.vcpu i = .inGuest then .exiting else s.vcpu i)).setCall c (.kicking left)
    | _ => s
  | unlockTable c =>
    { s.setCall c .returned with
      locked := false
      late := Function.update s.late c fun i => s.vcpu i == .off }

end KickAct

namespace Kicking

variable {n : ℕ} {C : Type*} [DecidableEq C] {hasPlugin : Bool} {calls : C → KickCall n}
  {s s' : Kicking n C} {a : KickAct n C} {c : C} {i : Fin n}

/-- One action of one thread. -/
def Step (hasPlugin : Bool) (calls : C → KickCall n) (a : KickAct n C) (s s' : Kicking n C) :
    Prop :=
  a.Enabled s ∧ s' = a.effect hasPlugin calls s

/-! ### One vCPU -/

/-- What a step of any thread does to a vCPU: where its thread goes, the flag that it loads on the
way, and what becomes of its `immediate_exit`. -/
inductive VcpuMove (hasPlugin : Bool) (i : Fin n) (byte : Bool) :
    KvmVcpuAt → Option KickFlag → KvmVcpuAt → Bool → Prop
  | stay {v} : VcpuMove hasPlugin i byte v none v byte
  | kicked {v} : VcpuMove hasPlugin i byte v none v true
  | register : VcpuMove hasPlugin i byte .off none .top byte
  | clear : VcpuMove hasPlugin i byte .top none .checking false
  | running {v'} (hv : v' = .arriving ∨ v' = .leaving) :
    VcpuMove hasPlugin i byte .checking (some .running) v' byte
  | requested {v v'} (hv : v = .arriving ∨ v = .parked) (hv' : v' = .parked ∨ v' = .safepoint) :
    VcpuMove hasPlugin i byte v (some .requested) v' byte
  | plugin : VcpuMove hasPlugin i byte .safepoint (some .plugin) .entering byte
  | noPlugin (hno : (hasPlugin && i.val == 0) = false) :
    VcpuMove hasPlugin i byte .safepoint none .entering byte
  | run (hbyte : byte = false) : VcpuMove hasPlugin i byte .entering none .inGuest byte
  | refused : VcpuMove hasPlugin i byte .entering none .exiting byte
  | exit : VcpuMove hasPlugin i byte .inGuest none .exiting byte
  | handled {v'} (hv : v' = .top ∨ v' = .leaving) : VcpuMove hasPlugin i byte .exiting none v' byte
  | unregister : VcpuMove hasPlugin i byte .leaving none .gone byte

/-- The step `s` to `s'` makes this move at the vCPU, loading the flag `f`. -/
def Moves (hasPlugin : Bool) (calls : C → KickCall n) (a : KickAct n C) (i : Fin n)
    (s s' : Kicking n C) : Prop :=
  ∃ f, VcpuMove hasPlugin i (s.immediateExit i) (s.vcpu i) f (s'.vcpu i) (s'.immediateExit i) ∧
    ∀ c, a ≠ .store c → s'.seen c i = (s.seen c i || f == some (calls c).flag)

omit [DecidableEq C] in
theorem Moves.of_eq (hvcpu : s'.vcpu i = s.vcpu i) (hbyte : s'.immediateExit i = s.immediateExit i)
    (hseen : ∀ c, a ≠ .store c → s'.seen c i = s.seen c i) : Moves hasPlugin calls a i s s' := by
  refine ⟨none, ?_, fun c hc => by simp [hseen c hc]⟩
  rw [hvcpu, hbyte]
  exact .stay

omit [DecidableEq C] in
/-- A step that moves only the thread of vCPU `j`. -/
theorem Moves.setVcpu {j : Fin n} {v : KvmVcpuAt}
    (hmove : VcpuMove hasPlugin j (s.immediateExit j) (s.vcpu j) none v (s.immediateExit j)) :
    Moves hasPlugin calls a i s (s.setVcpu j v) := by
  by_cases hj : i = j
  · subst hj
    exact ⟨none, by simpa [Kicking.setVcpu] using hmove, fun c _ => by simp [Kicking.setVcpu]⟩
  · exact .of_eq (by simp [Kicking.setVcpu, hj]) rfl fun _ _ => rfl

omit [DecidableEq C] in
theorem Moves.load {j : Fin n} {v : KvmVcpuAt} {f : KickFlag}
    (hmove : VcpuMove hasPlugin j (s.immediateExit j) (s.vcpu j) (some f) v (s.immediateExit j)) :
    Moves hasPlugin calls a i s ((s.load calls j f).setVcpu j v) := by
  by_cases hj : i = j
  · subst hj
    refine ⟨some f, by simpa [Kicking.setVcpu, Kicking.load] using hmove, fun c _ => ?_⟩
    simp [Kicking.setVcpu, Kicking.load]
  · refine .of_eq (by simp [Kicking.setVcpu, Kicking.load, hj]) rfl fun c _ => ?_
    simp [Kicking.setVcpu, Kicking.load, hj]

/-- **Every step moves a vCPU in one of these ways.** -/
theorem effect_moves (hasPlugin : Bool) (calls : C → KickCall n) (hen : a.Enabled s) (i : Fin n) :
    Moves hasPlugin calls a i s (a.effect hasPlugin calls s) := by
  cases a with
  | register j =>
    refine .setVcpu ?_
    rw [hen.1]
    exact .register
  | clear j =>
    by_cases hj : i = j
    · subst hj
      refine ⟨none, ?_, fun c _ => by simp [KickAct.effect, setVcpu]⟩
      rw [show s.vcpu i = .top from hen]
      simpa [KickAct.effect, setVcpu] using VcpuMove.clear
    · exact .of_eq (by simp [KickAct.effect, setVcpu, hj]) (by simp [KickAct.effect, hj])
        fun _ _ => rfl
  | readRunning j =>
    refine .load ?_
    rw [show s.vcpu j = .checking from hen]
    exact .running (by split <;> simp)
  | readRequested j => exact .load (.requested hen (by split <;> simp))
  | passSafepoint j =>
    have hat : s.vcpu j = .safepoint := hen
    by_cases hp : (hasPlugin && j.val == 0) = true
    · rw [show KickAct.effect hasPlugin calls s (.passSafepoint j) =
        { (s.load calls j .plugin).setVcpu j .entering with plugin := false } from if_pos hp]
      -- the plugin's own flag is no part of a move
      exact Moves.load (a := .passSafepoint j) (by rw [hat]; exact .plugin)
    · rw [show KickAct.effect hasPlugin calls s (.passSafepoint j) = s.setVcpu j .entering from
        if_neg hp]
      refine .setVcpu ?_
      rw [hat]
      exact .noPlugin (by simpa using hp)
  | run j =>
    refine .setVcpu ?_
    rw [show s.vcpu j = .entering from hen]
    cases hbyte : s.immediateExit j with
    | false => exact .run rfl
    | true => exact .refused
  | exit j =>
    refine .setVcpu ?_
    rw [show s.vcpu j = .inGuest from hen]
    exact .exit
  | handleExit j quit =>
    refine .setVcpu ?_
    rw [show s.vcpu j = .exiting from hen]
    exact .handled (by cases quit <;> simp)
  | unregister j =>
    refine .setVcpu ?_
    rw [hen.1]
    exact .unregister
  | release => exact .of_eq rfl rfl fun _ _ => rfl
  | store d =>
    refine .of_eq ?_ ?_ fun c hc => ?_
    · cases hf : (calls d).flag <;> simp [KickAct.effect, setCall, raise, hf]
    · cases hf : (calls d).flag <;> simp [KickAct.effect, setCall, raise, hf]
    · have hne : c ≠ d := fun h => hc (by rw [h])
      simp [KickAct.effect, hne]
  | lockTable d => exact .of_eq rfl rfl fun _ _ => rfl
  | setImmediateExit d =>
    obtain ⟨j, left, hcall⟩ := hen
    rw [show KickAct.effect hasPlugin calls s (.setImmediateExit d) =
      { s.setCall d (.signalling j left) with
        immediateExit := Function.update s.immediateExit j true } by simp [KickAct.effect, hcall]]
    by_cases hj : i = j
    · subst hj
      refine ⟨none, ?_, fun c _ => by simp [setCall]⟩
      simpa [setCall] using VcpuMove.kicked
    · exact .of_eq rfl (by simp [hj]) fun _ _ => rfl
  | signal d =>
    obtain ⟨j, left, hcall⟩ := hen
    rw [show KickAct.effect hasPlugin calls s (.signal d) =
      (s.setVcpu j (if s.vcpu j = .inGuest then .exiting else s.vcpu j)).setCall d
        (.kicking left) by
        simp [KickAct.effect, hcall]]
    have hmove : Moves hasPlugin calls (.signal d) i s
        (s.setVcpu j (if s.vcpu j = .inGuest then .exiting else s.vcpu j)) := by
      refine .setVcpu ?_
      split
      · next hin =>
        rw [hin]
        exact .exit
      · exact .stay
    exact hmove
  | unlockTable d => exact .of_eq rfl rfl fun _ _ => rfl

/-! ### What a kick leaves behind -/

/-- The vCPU has read the call's flag, or reads it before its next run, or has its next run cut
short. -/
def Reached (calls : C → KickCall n) (s : Kicking n C) (c : C) (i : Fin n) : Prop :=
  s.seen c i = true ∨ (s.vcpu i).rereads (calls c).flag = true ∨
    (s.immediateExit i = true ∧ s.vcpu i ≠ .inGuest)

/-- A flag that the vCPU has yet to read, or a run that is to be cut short, stays so until the flag
is read. -/
theorem VcpuMove.reached {byte byte' : Bool} {v v' : KvmVcpuAt} {f : KickFlag} {g : Option KickFlag}
    (hmove : VcpuMove hasPlugin i byte v g v' byte') (hread : f.readBy hasPlugin i = true)
    (h : v.rereads f = true ∨ (byte = true ∧ v ≠ .inGuest)) :
    g = some f ∨ v'.rereads f = true ∨ (byte' = true ∧ v' ≠ .inGuest) := by
  cases hmove with
  | stay => exact .inr h
  | kicked =>
    rcases h with h | ⟨-, h⟩
    · exact .inr (.inl h)
    · exact .inr (.inr ⟨rfl, h⟩)
  | register | clear | refused | exit | unregister => exact .inr (.inl rfl)
  | running hv =>
    -- a stop is seen here, the other flags are still ahead
    rcases hv with rfl | rfl
    · cases f <;> simp [KvmVcpuAt.rereads]
    · exact .inr (.inl rfl)
  | requested hv hv' =>
    rcases hv with rfl | rfl <;> rcases hv' with rfl | rfl <;> cases f <;>
      simp_all [KvmVcpuAt.rereads]
  | plugin =>
    cases f with
    | plugin => exact .inl rfl
    | running | requested => simpa [KvmVcpuAt.rereads] using h
  | noPlugin hno =>
    cases f with
    | plugin => exact absurd hread (by simpa [KickFlag.readBy] using hno)
    | running | requested => simpa [KvmVcpuAt.rereads] using h
  | run hbyte =>
    -- the guest is entered only with the byte clear
    rcases h with h | ⟨h, -⟩
    · exact absurd h (by simp [KvmVcpuAt.rereads])
    · exact absurd (hbyte.symm.trans h) (by simp)
  | handled hv => rcases hv with rfl | rfl <;> exact .inr (.inl rfl)

/-- The flag of a call is read, or stays to be read, by every step but the call's own store. -/
theorem Reached.effect (h : Reached calls s c i) (hen : a.Enabled s) (hstore : a ≠ .store c)
    (hread : (calls c).flag.readBy hasPlugin i = true) :
    Reached calls (a.effect hasPlugin calls s) c i := by
  obtain ⟨f, hmove, hseen⟩ := effect_moves hasPlugin calls hen i
  rcases h with h | h
  · exact .inl (by rw [hseen c hstore, h, Bool.true_or])
  · rcases hmove.reached hread h with rfl | h
    · exact .inl (by rw [hseen c hstore]; simp)
    · exact .inr h

/-- A vCPU whose `immediate_exit` is set and that is about to be signalled leaves the guest or never
comes into it. -/
theorem reached_or_inGuest_effect (h : s.vcpu i = .inGuest ∨ Reached calls s c i)
    (hen : a.Enabled s) (hstore : a ≠ .store c) (hread : (calls c).flag.readBy hasPlugin i = true) :
    (a.effect hasPlugin calls s).vcpu i = .inGuest ∨
      Reached calls (a.effect hasPlugin calls s) c i := by
  rcases h with hin | h
  · obtain ⟨f, hmove, -⟩ := effect_moves hasPlugin calls hen i
    rw [hin] at hmove
    generalize hv' : (a.effect hasPlugin calls s).vcpu i = v' at hmove
    generalize (a.effect hasPlugin calls s).immediateExit i = byte' at hmove
    cases hmove with
    | stay | kicked => exact .inl rfl
    | requested hv => exact absurd hv (by simp)
    | exit => exact .inr (.inr (.inl (by rw [hv']; rfl)))
  · exact .inr (h.effect hen hstore hread)

/-! ### The calls -/

/-- What holds while a call is at this place. -/
def CallOk (hasPlugin : Bool) (calls : C → KickCall n) (s : Kicking n C) (c : C) :
    KickCallAt n → Prop
  | .idle | .stored => True
  | .kicking left =>
    ∀ i, (calls c).flag.readBy hasPlugin i = true → (calls c).kicks i = true → i ∉ left →
      Reached calls s c i
  | .signalling j left =>
    ((calls c).flag.readBy hasPlugin j = true → s.vcpu j = .inGuest ∨ Reached calls s c j) ∧
      ∀ i, (calls c).flag.readBy hasPlugin i = true → (calls c).kicks i = true → i ∉ left → i ≠ j →
        Reached calls s c i
  | .returned =>
    ∀ i, (calls c).flag.readBy hasPlugin i = true → (calls c).kicks i = true ∨ s.late c i = true →
      Reached calls s c i

theorem late_effect (hen : a.Enabled s) (hunlock : a ≠ .unlockTable c) :
    (a.effect hasPlugin calls s).late c = s.late c := by
  cases a with
  | passSafepoint j =>
    simp only [KickAct.effect]
    split <;> rfl
  | store d => cases hf : (calls d).flag <;> simp [KickAct.effect, setCall, raise, hf]
  | setImmediateExit d =>
    obtain ⟨j, left, hcall⟩ := hen
    simp [KickAct.effect, hcall, setCall]
  | signal d =>
    obtain ⟨j, left, hcall⟩ := hen
    simp [KickAct.effect, hcall, setCall, setVcpu]
  | unlockTable d =>
    have hne : c ≠ d := fun h => hunlock (by rw [h])
    simp [KickAct.effect, hne]
  | _ => rfl

theorem call_effect (hen : a.Enabled s) (hc : a.caller ≠ some c) :
    (a.effect hasPlugin calls s).call c = s.call c := by
  have hne : ∀ d, a.caller = some d → c ≠ d := fun d hd h => hc (by rw [hd, h])
  cases a with
  | passSafepoint j =>
    simp only [KickAct.effect]
    split <;> rfl
  | store d => cases hf : (calls d).flag <;> simp [KickAct.effect, setCall, raise, hf, hne d rfl]
  | lockTable d | unlockTable d => simp [KickAct.effect, setCall, hne d rfl]
  | setImmediateExit d =>
    obtain ⟨j, left, hcall⟩ := hen
    simp [KickAct.effect, hcall, setCall, hne d rfl]
  | signal d =>
    obtain ⟨j, left, hcall⟩ := hen
    simp [KickAct.effect, hcall, setCall, setVcpu, hne d rfl]
  | _ => rfl

/-- The call's own place apart, a step keeps what holds of it. -/
theorem CallOk.effect {p : KickCallAt n} (h : CallOk hasPlugin calls s c p) (hen : a.Enabled s)
    (hstore : a ≠ .store c) (hunlock : a ≠ .unlockTable c) :
    CallOk hasPlugin calls (a.effect hasPlugin calls s) c p := by
  cases p with
  | idle | stored => trivial
  | kicking left => exact fun i hread hk hleft => (h i hread hk hleft).effect hen hstore hread
  | signalling j left =>
    refine ⟨fun hread => reached_or_inGuest_effect (h.1 hread) hen hstore hread, ?_⟩
    exact fun i hread hk hleft hne => (h.2 i hread hk hleft hne).effect hen hstore hread
  | returned =>
    intro i hread hk
    rw [late_effect hen hunlock] at hk
    exact (h i hread hk).effect hen hstore hread

/-- Every call stands where it may. -/
def Inv (hasPlugin : Bool) (calls : C → KickCall n) (s : Kicking n C) : Prop :=
  ∀ c, CallOk hasPlugin calls s c (s.call c)

theorem Step.inv (h : Inv hasPlugin calls s) (hstep : Step hasPlugin calls a s s') :
    Inv hasPlugin calls s' := by
  obtain ⟨hen, rfl⟩ := hstep
  intro c
  by_cases hc : a.caller = some c
  · cases a with
    | store d =>
      obtain rfl : d = c := by simpa [KickAct.caller] using hc
      have hcall : (KickAct.effect hasPlugin calls s (.store d)).call d = .stored := by
        simp [KickAct.effect, setCall]
      rw [hcall]
      trivial
    | lockTable d =>
      obtain rfl : d = c := by simpa [KickAct.caller] using hc
      have hcall : (KickAct.effect hasPlugin calls s (.lockTable d)).call d =
          .kicking ((List.finRange n).filter fun i =>
            (s.vcpu i).isRegistered && (calls d).kicks i) := by
        simp [KickAct.effect, setCall]
      rw [hcall]
      intro i hread hk hleft
      -- who is not in the table has its first run ahead of it, or none
      have hreg : (s.vcpu i).isRegistered = false := by
        simpa [hk] using hleft
      refine .inr (.inl ?_)
      show (s.vcpu i).rereads (calls d).flag = true
      cases hv : s.vcpu i <;> simp_all [KvmVcpuAt.isRegistered, KvmVcpuAt.rereads]
    | setImmediateExit d =>
      obtain rfl : d = c := by simpa [KickAct.caller] using hc
      obtain ⟨j, left, hcall⟩ := id hen
      have hcall' : (KickAct.effect hasPlugin calls s (.setImmediateExit d)).call d =
          .signalling j left := by
        simp [KickAct.effect, hcall, setCall]
      have hok := h d
      rw [hcall] at hok
      rw [hcall']
      constructor
      · intro hread
        by_cases hin : s.vcpu j = .inGuest
        · exact .inl (by simpa [KickAct.effect, hcall, setCall] using hin)
        · refine .inr (.inr (.inr ⟨?_, ?_⟩))
          · simp [KickAct.effect, hcall, setCall]
          · simpa [KickAct.effect, hcall, setCall] using hin
      · intro i hread hk hleft hne
        exact (hok i hread hk (by simp [hleft, hne])).effect hen nofun hread
    | signal d =>
      obtain rfl : d = c := by simpa [KickAct.caller] using hc
      obtain ⟨j, left, hcall⟩ := id hen
      have hcall' : (KickAct.effect hasPlugin calls s (.signal d)).call d = .kicking left := by
        simp [KickAct.effect, hcall, setCall]
      have hok := h d
      rw [hcall] at hok
      rw [hcall']
      intro i hread hk hleft
      by_cases hne : i = j
      · subst hne
        rcases hok.1 hread with hin | hreached
        · refine .inr (.inl ?_)
          simp [KickAct.effect, hcall, setCall, setVcpu, hin, KvmVcpuAt.rereads]
        · exact hreached.effect hen nofun hread
      · exact (hok.2 i hread hk hleft hne).effect hen nofun hread
    | unlockTable d =>
      obtain rfl : d = c := by simpa [KickAct.caller] using hc
      have hcall' : (KickAct.effect hasPlugin calls s (.unlockTable d)).call d = .returned := by
        simp [KickAct.effect, setCall]
      have hok := h d
      rw [show s.call d = .kicking [] from hen] at hok
      rw [hcall']
      intro i hread hk
      rcases hk with hk | hlate
      · exact (hok i hread hk (by simp)).effect hen nofun hread
      · have hoff : s.vcpu i = .off := by simpa [KickAct.effect] using hlate
        refine .inr (.inl ?_)
        show (s.vcpu i).rereads (calls d).flag = true
        rw [hoff]
        rfl
    | _ => exact absurd hc (by simp [KickAct.caller])
  · rw [call_effect hen hc]
    refine (h c).effect hen ?_ ?_
    · rintro rfl
      exact hc rfl
    · rintro rfl
      exact hc rfl

/-- **A kick is not lost.**  After any interleaving of the vCPU threads with any calls: a vCPU that
is in the guest although a call that kicks it has returned has read the call's flag since the call
stored it, and so has a vCPU that had not registered when the call returned. -/
theorem kick_not_lost (h : Steps (Step hasPlugin calls) (fun _ => True) {} s)
    (hcall : s.call c = .returned) (hread : (calls c).flag.readBy hasPlugin i = true)
    (hkick : ((calls c).target = .all ∨ (calls c).target = .one i) ∧ (calls c).self ≠ some i ∨
      s.late c i = true)
    (hin : s.vcpu i = .inGuest) :
    s.seen c i = true := by
  have hinv : Inv hasPlugin calls s := h.inv (fun _ hstep hs => hstep.inv hs) fun _ => trivial
  have hok := hinv c
  rw [hcall] at hok
  rcases hok i hread (hkick.imp_left KickCall.kicks_iff.mpr) with hseen | hahead | ⟨-, hout⟩
  · exact hseen
  · exact absurd hahead (by simp [hin, KvmVcpuAt.rereads])
  · exact absurd hin hout

/-- A pause kicks the one vCPU out of the guest; it clears the byte, parks until the release and is
back in the guest. -/
def kickOne : List (KickAct 1 Unit) :=
  [.register 0, .clear 0, .readRunning 0, .readRequested 0, .passSafepoint 0, .run 0,
    .store (), .lockTable (), .setImmediateExit (), .signal (), .unlockTable (),
    .handleExit 0 false, .clear 0, .readRunning 0, .readRequested 0, .release, .readRequested 0,
    .passSafepoint 0, .run 0]

def pauseCall : Unit → KickCall 1 := fun _ => { flag := .requested, target := .all }

theorem kick_not_lost_one :
    ∃ s : Kicking 1 Unit, Steps (Step false pauseCall) (fun _ => True) {} s ∧
      s.call () = .returned ∧ s.vcpu 0 = .inGuest ∧ s.seen () 0 = true := by
  have hgoes : Goes (fun s a => a.Enabled s) (KickAct.effect false pauseCall) kickOne {} :=
    ⟨⟨rfl, rfl⟩, rfl, rfl, .inl rfl, rfl, rfl, rfl, ⟨rfl, rfl⟩, ⟨0, [], rfl⟩, ⟨0, [], rfl⟩, rfl,
      rfl, rfl, rfl, .inl rfl, trivial, .inr rfl, rfl, rfl, trivial⟩
  exact ⟨_, hgoes.steps, rfl, rfl, kick_not_lost hgoes.steps rfl rfl
    (.inl ⟨.inl rfl, by decide⟩) rfl⟩

end Kicking
