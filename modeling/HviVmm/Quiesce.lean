/-
Pausing the vCPUs of a VM (`hypervisor::quiesce`, `Vcpus::pause`, `resume` and `stop` of
`hypervisor::vcpus`, and the run loop of `hypervisor::kvm`).

One vCPU thread pauses the others: it raises the request, kicks every vCPU out of the guest and
waits until as many have parked as have started.  The others look at the running flag and at the
request between two guest entries, and park under a lock while the request stands.  Threads that
stop the VM clear the running flag, kick every vCPU and release the request.

Each action below is one access to what the threads share: an atomic load or store, a section under
a lock, one kick.  The actions of all threads interleave in any way.  A kick of a vCPU leaves a
mark: a run that is entered with the mark set ends before the guest runs.  A vCPU may take the mark
off at the top of its loop, as the KVM loop does with `immediate_exit`, or leave it.

* `PauseAct.Enabled`, `PauseAct.effect` — when an action can be taken, and what it does;
* `Pausing.Step` — one action of one thread.
-/
import Mathlib.Data.Fintype.Card
import Mathlib.Data.Finset.Card

/-! ### The threads -/

/-- Where the thread of a vCPU other than the pausing one is. -/
inductive VcpuAt where
  /-- Its thread has not registered to be kicked. -/
  | off
  | registered
  /-- At the top of the loop. -/
  | top
  /-- Before it reads the running flag. -/
  | checking
  /-- In `checkpoint`, before it reads the request for the first time. -/
  | arriving
  /-- In `checkpoint`, having seen the request, without the lock. -/
  | seen
  /-- Counted as parked, with the lock, before it reads the request again. -/
  | counted
  /-- Counted as parked, in `cv.wait`. -/
  | asleep
  /-- Counted as parked, out of `cv.wait` but without the lock. -/
  | woken
  /-- Past the checkpoint, before the run. -/
  | entering
  | inGuest
  | exited
  deriving DecidableEq

/-- Counted in `parked`. -/
def VcpuAt.isParked : VcpuAt → Bool
  | .counted | .asleep | .woken => true
  | _ => false

/-- Counted in `started`. -/
def VcpuAt.isStarted : VcpuAt → Bool
  | .off | .registered => false
  | _ => true

/-- Where the pausing thread is.  Outside `pause` and `resume` it is `idle`. -/
inductive PauserAt (n : ℕ) where
  | unstarted
  | idle
  /-- The request is raised, no vCPU is kicked yet. -/
  | requested
  | kicking (left : List (Fin n))
  /-- Before it takes the lock of the wait. -/
  | locking
  /-- With the lock, before it reads the running flag for its target. -/
  | reading
  /-- With the lock, before it reads how many have started. -/
  | counting
  | asleep
  | woken
  /-- The wait has ended, and not by its timeout. -/
  | deciding
  /-- `pause` has returned true. -/
  | paused
  /-- In `release`, before the store. -/
  | releasing
  /-- In `release`, before the notify. -/
  | notifying
  deriving DecidableEq

/-- Where a thread that stops the VM is. -/
inductive StopperAt (n : ℕ) where
  | idle
  /-- It has cleared the running flag and kicks no vCPU yet. -/
  | stopped
  | kicking (left : List (Fin n))
  | releasing
  | notifying
  deriving DecidableEq

/-- A VM with `n` vCPUs beside the pausing one, and `m` threads that stop it. -/
structure Pausing (n m : ℕ) where
  running : Bool := true
  requested : Bool := false
  started : ℕ := 0
  parked : ℕ := 0
  /-- The lock of the quiesce is held. -/
  locked : Bool := false
  /-- The lock of the table of threads is held. -/
  kickLocked : Bool := false
  /-- The vCPU's next run ends before the guest runs. -/
  kicked : Fin n → Bool := fun _ => false
  vcpu : Fin n → VcpuAt := fun _ => .off
  pauser : PauserAt n := .unstarted
  stopper : Fin m → StopperAt n := fun _ => .idle
  /-- The stop that cleared the running flag has made its kicks. -/
  kicksDone : Bool := false
  /-- The request has been released, with the notify, since it was last raised. -/
  released : Bool := true

namespace Pausing

variable {n m : ℕ}

def setVcpu (s : Pausing n m) (i : Fin n) (v : VcpuAt) : Pausing n m :=
  { s with vcpu := Function.update s.vcpu i v }

def setStopper (s : Pausing n m) (t : Fin m) (p : StopperAt n) : Pausing n m :=
  { s with stopper := Function.update s.stopper t p }

/-- Wakes every thread that waits on the condition variable. -/
def notifyAll (s : Pausing n m) : Pausing n m :=
  { s with
    vcpu := fun i => if s.vcpu i = .asleep then .woken else s.vcpu i
    pauser := if s.pauser = .asleep then .woken else s.pauser }

/-- The vCPUs in the table of threads. -/
def table (s : Pausing n m) : List (Fin n) :=
  (List.finRange n).filter fun i => s.vcpu i != .off

def kick (s : Pausing n m) (i : Fin n) : Pausing n m :=
  { s with kicked := Function.update s.kicked i true }

end Pausing

/-! ### Actions -/

inductive PauseAct (n m : ℕ) where
  /-- A vCPU thread enters itself in the table. -/
  | register (i : Fin n)
  | markStarted (i : Fin n)
  /-- The top of the loop; the mark of a kick is taken off, or kept. -/
  | loopTop (i : Fin n) (keep : Bool)
  | checkRunning (i : Fin n)
  /-- `checkpoint` reads the request without the lock. -/
  | arrive (i : Fin n)
  | park (i : Fin n)
  /-- `checkpoint` reads the request under the lock. -/
  | recheck (i : Fin n)
  /-- A wakeup no one sent. -/
  | wakeUp (i : Fin n)
  | relock (i : Fin n)
  | enter (i : Fin n)
  /-- A run ends, and the loop goes on or is left. -/
  | leave (i : Fin n) (quit : Bool)
  | pauserStart
  | request
  | lockTable
  | kickNext
  | unlockTable
  | lockWait
  | readRunning
  /-- The target is read and compared; `expired` says that the deadline has passed. -/
  | readStarted (expired : Bool)
  /-- A wakeup no one sent, or the deadline. -/
  | wakePauser
  | relockWait
  | decide
  | resume
  | release
  | notify
  /-- A stop clears the running flag. -/
  | stop (t : Fin m)
  | stopLockTable (t : Fin m)
  | stopKickNext (t : Fin m)
  | stopUnlockTable (t : Fin m)
  | stopRelease (t : Fin m)
  | stopNotify (t : Fin m)
  deriving DecidableEq

namespace PauseAct

variable {n m : ℕ}

/-- When the action can be taken. -/
def Enabled (s : Pausing n m) : PauseAct n m → Prop
  | register i => s.vcpu i = .off ∧ s.kickLocked = false
  | markStarted i => s.vcpu i = .registered
  | loopTop i _ => s.vcpu i = .top
  | checkRunning i => s.vcpu i = .checking
  | arrive i => s.vcpu i = .arriving
  | park i => s.vcpu i = .seen ∧ s.locked = false
  | recheck i => s.vcpu i = .counted
  | wakeUp i => s.vcpu i = .asleep
  | relock i => s.vcpu i = .woken ∧ s.locked = false
  | enter i => s.vcpu i = .entering
  | leave i _ => s.vcpu i = .inGuest
  | pauserStart => s.pauser = .unstarted
  | request => s.pauser = .idle
  | lockTable => s.pauser = .requested ∧ s.kickLocked = false
  | kickNext => ∃ i left, s.pauser = .kicking (i :: left)
  | unlockTable => s.pauser = .kicking []
  | lockWait => s.pauser = .locking ∧ s.locked = false
  | readRunning => s.pauser = .reading
  | readStarted _ => s.pauser = .counting
  | wakePauser => s.pauser = .asleep
  | relockWait => s.pauser = .woken ∧ s.locked = false
  | decide => s.pauser = .deciding
  | resume => s.pauser = .paused
  | release => s.pauser = .releasing
  | notify => s.pauser = .notifying ∧ s.locked = false
  | stop t => s.stopper t = .idle
  | stopLockTable t => s.stopper t = .stopped ∧ s.kickLocked = false
  | stopKickNext t => ∃ i left, s.stopper t = .kicking (i :: left)
  | stopUnlockTable t => s.stopper t = .kicking []
  | stopRelease t => s.stopper t = .releasing
  | stopNotify t => s.stopper t = .notifying ∧ s.locked = false

/-- What the action does, where it can be taken. -/
def effect (s : Pausing n m) : PauseAct n m → Pausing n m
  | register i => s.setVcpu i .registered
  | markStarted i => { s.setVcpu i .top with started := s.started + 1 }
  | loopTop i keep =>
    { s.setVcpu i .checking with kicked := Function.update s.kicked i (keep && s.kicked i) }
  | checkRunning i => s.setVcpu i (if s.running then .arriving else .exited)
  | arrive i => s.setVcpu i (if s.requested then .seen else .entering)
  | park i =>
    { s.notifyAll.setVcpu i .counted with parked := s.parked + 1, locked := true }
  | recheck i =>
    { s.setVcpu i (if s.requested then .asleep else .entering) with
      parked := if s.requested then s.parked else s.parked - 1, locked := false }
  | wakeUp i => s.setVcpu i .woken
  | relock i => { s.setVcpu i .counted with locked := true }
  | enter i => s.setVcpu i (if s.kicked i then .top else .inGuest)
  | leave i quit => s.setVcpu i (if quit then .exited else .top)
  | pauserStart => { s with pauser := .idle, started := s.started + 1 }
  | request => { s with pauser := .requested, requested := true, released := false }
  | lockTable => { s with pauser := .kicking s.table, kickLocked := true }
  | kickNext =>
    match s.pauser with
    | .kicking (i :: left) => { s.kick i with pauser := .kicking left }
    | _ => s
  | unlockTable => { s with pauser := .locking, kickLocked := false }
  | lockWait => { s with pauser := .reading, locked := true }
  | readRunning =>
    { s with pauser := if s.running then .counting else .deciding, locked := s.running }
  | readStarted expired =>
    { s with
      pauser :=
        if s.parked < s.started - 1 then if expired then .releasing else .asleep else .deciding
      locked := false }
  | wakePauser => { s with pauser := .woken }
  | relockWait => { s with pauser := .reading, locked := true }
  | decide => { s with pauser := if s.running then .paused else .releasing }
  | resume => { s with pauser := .releasing }
  | release => { s with pauser := .notifying, requested := false }
  | notify => { s.notifyAll with pauser := .idle, released := !s.requested }
  | stop t =>
    { s.setStopper t (if s.running then .stopped else .releasing) with running := false }
  | stopLockTable t => { s.setStopper t (.kicking s.table) with kickLocked := true }
  | stopKickNext t =>
    match s.stopper t with
    | .kicking (i :: left) => (s.kick i).setStopper t (.kicking left)
    | _ => s
  | stopUnlockTable t => { s.setStopper t .releasing with kickLocked := false, kicksDone := true }
  | stopRelease t => { s.setStopper t .notifying with requested := false }
  | stopNotify t => { s.notifyAll.setStopper t .idle with released := !s.requested }

end PauseAct

namespace Pausing

variable {n m : ℕ}

/-- One action of one thread. -/
def Step (a : PauseAct n m) (s s' : Pausing n m) : Prop := a.Enabled s ∧ s' = a.effect s

end Pausing
