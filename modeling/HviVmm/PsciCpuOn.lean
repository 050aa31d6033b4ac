/-
Bringing up the secondaries of an arm64 guest by PSCI `CPU_ON` (`service_psci` and `run_cpu` of
`arch::aarch64::hvf::vcpu`, `Kicker::cpu_on` and `Kicker::wait_for_cpu_on` of `hvf::kick`).

Every secondary has a mailbox.  Its thread waits under the lock of the mailbox until something is
in it or the VM stops, and takes what it finds.  A vCPU that makes a `CPU_ON` call fills the
mailbox of the target under the lock and notifies the waiting thread after it has let go of it.
Nothing tells a mailbox that was emptied from one that was never filled.

Each action below is one section under a lock, one notify or one step of a single thread, and the
actions interleave in any way.

* `PsciSystem.cpu_on_once` — while no two calls name the same secondary, the call for a secondary
  is answered with success, the secondary starts with its entry point and context id, and is not
  left asleep;
* `second_call_succeeds` — a second call for a secondary is answered with success too, and the
  secondary starts with what the second call posted.
-/
import Mathlib.Data.List.FinRange
import HviVmm.LabelledSteps

open LabelledSteps

/-! ### The call -/

/-- The vCPU that has the affinity, if one can have it. -/
def vcpuIndex (affinity : UInt64) : Option UInt32 :=
  if affinity &&& ~~~(0xffffff : UInt64) ≠ 0 ∨ 0xf < affinity &&& 0xff then none
  else
    let aff0 := affinity &&& 0xf
    let aff1 := (affinity >>> 8) &&& 0xff
    let aff2 := (affinity >>> 16) &&& 0xff
    some (aff0 ||| (aff1 <<< 4) ||| (aff2 <<< 12)).toUInt32

def psciSuccess : UInt64 := 0
def psciNotSupported : UInt64 := 0xffffffffffffffff

/-- The arguments of a `CPU_ON` call. -/
structure CpuOn where
  target : UInt64
  entry : UInt64
  context : UInt64
  deriving DecidableEq

namespace CpuOn

variable (n : ℕ)

/-- The secondary a call is for: not vCPU 0, and none past the last. -/
def secondary (c : CpuOn) : Option (Fin n) :=
  match vcpuIndex c.target with
  | none => none
  | some cpu => if h : cpu.toNat < n then if cpu ≠ 0 then some ⟨cpu.toNat, h⟩ else none else none

/-- What the secondary starts with. -/
def start (c : CpuOn) : UInt64 × UInt64 := (c.entry, c.context)

end CpuOn

/-! ### The threads -/

/-- Where the thread of a vCPU is. -/
inductive PsciVcpuAt (n : ℕ) where
  | creating
  /-- A secondary about to take the lock of its mailbox. -/
  | arriving
  /-- In `cv.wait`. -/
  | asleep
  /-- In its run loop. -/
  | running
  /-- In `cpu_on`, with the mailbox filled, before the notify. -/
  | notifying (cpu : Fin n) (call : CpuOn)
  /-- The vCPU could not be created. -/
  | failed
  | gone
  deriving DecidableEq

/-- The threads and the mailboxes. -/
structure PsciSystem (n : ℕ) where
  /-- Cleared by a stop. -/
  running : Bool := true
  mbox : Fin n → Option (UInt64 × UInt64) := fun _ => none
  vcpu : Fin n → PsciVcpuAt n := fun _ => .creating
  /-- The entry point and context id a secondary was started with. -/
  started : Fin n → Option (UInt64 × UInt64) := fun _ => none
  /-- The calls made so far, in the order in which they came to the mailboxes. -/
  calls : List CpuOn := []
  /-- What they were answered, in the order of the answers. -/
  answers : List (CpuOn × UInt64) := []

/-- What a thread does next. -/
inductive PsciAct (n : ℕ) where
  | create (i : Fin n)
  /-- The vCPU cannot be created; the thread reports it. -/
  | fail (i : Fin n)
  /-- A secondary looks into its mailbox. -/
  | check (i : Fin n)
  /-- A secondary wakes up, by the notify of a stop or by itself. -/
  | wake (i : Fin n)
  | call (i : Fin n) (c : CpuOn)
  | notify (i : Fin n)
  /-- A vCPU leaves its loop. -/
  | exit (i : Fin n)
  /-- The VM is stopped: on request, or as a thread has ended. -/
  | stop

namespace PsciSystem

variable {n : ℕ}

def setVcpu (s : PsciSystem n) (i : Fin n) (v : PsciVcpuAt n) : PsciSystem n :=
  { s with vcpu := Function.update s.vcpu i v }

/-- Wakes the secondary that waits for its mailbox. -/
def notifyAll (s : PsciSystem n) (cpu : Fin n) : PsciSystem n :=
  if s.vcpu cpu = .asleep then s.setVcpu cpu .arriving else s

/-- The end of a call that was posted: the notify, and the answer. -/
def notify (s : PsciSystem n) (i cpu : Fin n) (c : CpuOn) : PsciSystem n :=
  { (s.notifyAll cpu).setVcpu i .running with answers := s.answers ++ [(c, psciSuccess)] }

/-- Posts the call to its secondary, before the notify. -/
def post (s : PsciSystem n) (i cpu : Fin n) (c : CpuOn) : PsciSystem n :=
  { s with
    mbox := Function.update s.mbox cpu (some c.start)
    vcpu := Function.update s.vcpu i (.notifying cpu c)
    calls := s.calls ++ [c] }

/-- Answers a call that is for no secondary. -/
def refuse (s : PsciSystem n) (c : CpuOn) : PsciSystem n :=
  { s with calls := s.calls ++ [c], answers := s.answers ++ [(c, psciNotSupported)] }

/-- `Kicker::cpu_on` up to the notify. -/
def cpuOn (s : PsciSystem n) (i : Fin n) (c : CpuOn) : PsciSystem n :=
  match c.secondary n with
  | none => s.refuse c
  | some cpu => s.post i cpu c

/-- Starts a secondary with what was in its mailbox. -/
def take (s : PsciSystem n) (i : Fin n) (start : UInt64 × UInt64) : PsciSystem n :=
  { s with
    mbox := Function.update s.mbox i none
    started := Function.update s.started i (some start)
    vcpu := Function.update s.vcpu i .running }

/-- One turn of the loop of `wait_for_cpu_on`, under the lock of the mailbox. -/
def waitForCpuOn (s : PsciSystem n) (i : Fin n) : PsciSystem n :=
  match s.mbox i with
  | some start => s.take i start
  | none => s.setVcpu i (if s.running then .asleep else .gone)

end PsciSystem

namespace PsciAct

variable {n : ℕ}

def Enabled (s : PsciSystem n) : PsciAct n → Prop
  | create i | fail i => s.vcpu i = .creating
  | check i => s.vcpu i = .arriving
  | wake i => s.vcpu i = .asleep
  | call i _ | exit i => s.vcpu i = .running
  | notify i => ∃ cpu c, s.vcpu i = .notifying cpu c
  | stop => True

def effect (s : PsciSystem n) : PsciAct n → PsciSystem n
  | create i => s.setVcpu i (if i.val = 0 then .running else .arriving)
  | fail i => s.setVcpu i .failed
  | exit i => s.setVcpu i .gone
  | stop => { s with running := false }
  | check i => s.waitForCpuOn i
  | wake i => s.setVcpu i .arriving
  | call i c => s.cpuOn i c
  | notify i =>
    match s.vcpu i with
    | .notifying cpu c => s.notify i cpu c
    | _ => s

/-- A call is for a secondary that no call before it was for. -/
def Fresh (s : PsciSystem n) : PsciAct n → Prop
  | call _ c => ∀ cpu, c.secondary n = some cpu → ∀ c' ∈ s.calls, c'.secondary n ≠ some cpu
  | _ => True

end PsciAct

namespace PsciSystem

variable {n : ℕ}
variable {c : CpuOn}

/-- One action of one thread. -/
def Step (a : PsciAct n) (s s' : PsciSystem n) : Prop := a.Enabled s ∧ s' = a.effect s

/-- One action, where no two calls are for the same secondary. -/
def FreshStep (a : PsciAct n) (s s' : PsciSystem n) : Prop := a.Fresh s ∧ Step a s s'

/-- The calls for a secondary, and what they were answered. -/
def callsFor (s : PsciSystem n) (cpu : Fin n) : List CpuOn :=
  s.calls.filter fun c => c.secondary n = some cpu

def answersFor (s : PsciSystem n) (cpu : Fin n) : List (CpuOn × UInt64) :=
  s.answers.filter fun r => r.1.secondary n = some cpu

/-! ### The invariant -/

/-- The thread has not come past its mailbox, or the VM is stopped. -/
def Early (s : PsciSystem n) (cpu : Fin n) : Prop :=
  s.vcpu cpu = .creating ∨ s.vcpu cpu = .arriving ∨ s.vcpu cpu = .asleep ∨ s.vcpu cpu = .failed ∨
    s.running = false

/-- What holds of a vCPU that no call was for. -/
structure Untouched (s : PsciSystem n) (cpu : Fin n) : Prop where
  mbox : s.mbox cpu = none
  started : s.started cpu = none
  answers : s.answersFor cpu = []
  quiet : ∀ i c, s.vcpu i ≠ .notifying cpu c
  early : cpu.val ≠ 0 → s.Early cpu

/-- What holds of a secondary that one call was for. -/
structure Called (s : PsciSystem n) (cpu : Fin n) (c : CpuOn) : Prop where
  /-- What was posted waits in the mailbox, or the secondary was started with it. -/
  posted : s.mbox cpu = some c.start ∧ s.started cpu = none ∧ s.Early cpu ∨
    s.mbox cpu = none ∧ s.started cpu = some c.start
  /-- The call is answered, or its caller is about to notify. -/
  answer : s.answersFor cpu = [(c, psciSuccess)] ∧ (∀ i c', s.vcpu i ≠ .notifying cpu c') ∧
      (s.vcpu cpu = .asleep → s.mbox cpu = none) ∨
    s.answersFor cpu = [] ∧ ∃ i, ∀ j c', s.vcpu j = .notifying cpu c' ↔ j = i ∧ c' = c

/-- At most one call was for the vCPU, and it stands as that call left it. -/
def InvAt (s : PsciSystem n) (cpu : Fin n) : Prop :=
  s.callsFor cpu = [] ∧ s.Untouched cpu ∨ ∃ c, s.callsFor cpu = [c] ∧ s.Called cpu c

/-- A step that is none of the vCPU's business. -/
structure Frame (s s' : PsciSystem n) (cpu : Fin n) : Prop where
  mbox : s'.mbox cpu = s.mbox cpu
  started : s'.started cpu = s.started cpu
  calls : s'.callsFor cpu = s.callsFor cpu
  answers : s'.answersFor cpu = s.answersFor cpu
  notifying : ∀ j c, s'.vcpu j = .notifying cpu c ↔ s.vcpu j = .notifying cpu c
  asleep : s'.vcpu cpu = .asleep → s.vcpu cpu = .asleep ∨ s.mbox cpu = none
  early : cpu.val ≠ 0 → s.Early cpu → s'.Early cpu

theorem secondary_ne_zero {cpu : Fin n} (h : c.secondary n = some cpu) : cpu.val ≠ 0 := by
  unfold CpuOn.secondary at h
  split at h
  · cases h
  · next i _ =>
    split at h
    · split at h
      · next hi =>
        obtain rfl := Option.some.inj h
        intro hzero
        exact hi (UInt32.toNat_inj.mp hzero)
      · cases h
    · cases h

theorem mem_callsFor {s : PsciSystem n} {cpu : Fin n} :
    c ∈ s.callsFor cpu ↔ c ∈ s.calls ∧ c.secondary n = some cpu := by
  simp [callsFor]

theorem Frame.invAt {s s' : PsciSystem n} {cpu : Fin n} (hf : Frame s s' cpu) (h : s.InvAt cpu) :
    s'.InvAt cpu := by
  rcases h with ⟨hcalls, h⟩ | ⟨c, hcalls, h⟩
  · refine .inl ⟨hf.calls.trans hcalls, ?_⟩
    exact
      { mbox := hf.mbox.trans h.mbox
        started := hf.started.trans h.started
        answers := hf.answers.trans h.answers
        quiet := fun i c hi => h.quiet i c ((hf.notifying i c).mp hi)
        early := fun hcpu => hf.early hcpu (h.early hcpu) }
  · refine .inr ⟨c, hf.calls.trans hcalls, ?_, ?_⟩
    · have hcpu : cpu.val ≠ 0 :=
        secondary_ne_zero (mem_callsFor.mp (hcalls ▸ List.mem_singleton_self c)).2
      rw [hf.mbox, hf.started]
      exact h.posted.imp (fun hp => ⟨hp.1, hp.2.1, hf.early hcpu hp.2.2⟩) id
    · rw [hf.answers, hf.mbox]
      rcases h.answer with ⟨hanswers, hquiet, hasleep⟩ | ⟨hanswers, i, hi⟩
      · refine .inl ⟨hanswers, fun j c' hj => hquiet j c' ((hf.notifying j c').mp hj), fun hs => ?_⟩
        rcases hf.asleep hs with hs | hs
        · exact hasleep hs
        · exact hs
      · exact .inr ⟨hanswers, i, fun j c' => (hf.notifying j c').trans (hi j c')⟩

/-- A thread that is not in `cpu_on` goes to another place outside it. -/
theorem setVcpu_frame {s : PsciSystem n} {i : Fin n} {v : PsciVcpuAt n}
    (hi : ∀ cpu c, s.vcpu i ≠ .notifying cpu c) (hv : ∀ cpu c, v ≠ .notifying cpu c)
    (hasleep : v = .asleep → s.mbox i = none)
    (hearly : i.val ≠ 0 → s.Early i →
      v = .creating ∨ v = .arriving ∨ v = .asleep ∨ v = .failed ∨ s.running = false)
    (cpu : Fin n) : Frame s (s.setVcpu i v) cpu := by
  refine ⟨rfl, rfl, rfl, rfl, fun j c => ?_, fun h => ?_, fun hcpu h => ?_⟩
  · show Function.update s.vcpu i v j = _ ↔ _
    by_cases hj : j = i
    · subst hj
      rw [Function.update_self]
      exact iff_of_false (hv cpu c) (hi cpu c)
    · rw [Function.update_of_ne hj]
  · change Function.update s.vcpu i v cpu = _ at h
    by_cases hj : cpu = i
    · subst hj
      rw [Function.update_self] at h
      exact .inr (hasleep h)
    · rw [Function.update_of_ne hj] at h
      exact .inl h
  · show Function.update s.vcpu i v cpu = _ ∨ Function.update s.vcpu i v cpu = _ ∨
      Function.update s.vcpu i v cpu = _ ∨ Function.update s.vcpu i v cpu = _ ∨ s.running = false
    by_cases hj : cpu = i
    · subst hj
      rw [Function.update_self]
      exact hearly hcpu h
    · rw [Function.update_of_ne hj]
      exact h

theorem Early.congr {s s' : PsciSystem n} {cpu : Fin n} (h : s.Early cpu)
    (hvcpu : s'.vcpu cpu = s.vcpu cpu) (hrunning : s'.running = s.running) : s'.Early cpu := by
  unfold Early
  rw [hvcpu, hrunning]
  exact h

/-- The VM is stopped where a vCPU makes calls before anything came to its mailbox. -/
theorem Early.over {s : PsciSystem n} {i : Fin n} (h : s.Early i) (hi : s.vcpu i = .running) :
    s.running = false := by
  unfold Early at h
  rw [hi] at h
  simpa using h

/-! ### Steps -/

theorem take_invAt {s : PsciSystem n} {i : Fin n} {start : UInt64 × UInt64}
    (hi : s.vcpu i = .arriving) (hmbox : s.mbox i = some start) {cpu : Fin n} (h : s.InvAt cpu) :
    (s.take i start).InvAt cpu := by
  have hnotifying : ∀ j c, (s.take i start).vcpu j = .notifying cpu c ↔
      s.vcpu j = .notifying cpu c := by
    intro j c
    show Function.update s.vcpu i .running j = _ ↔ _
    by_cases hj : j = i
    · subst hj
      rw [Function.update_self, hi]
      exact iff_of_false (fun hc => by cases hc) fun hc => by cases hc
    · rw [Function.update_of_ne hj]
  by_cases hcpu : cpu = i
  · -- it starts with what the one call for it had posted
    subst hcpu
    rcases h with ⟨-, hcpu⟩ | ⟨c, hcalls, hcalled⟩
    · cases hmbox.symm.trans hcpu.mbox
    · rcases hcalled.posted with ⟨hposted, -⟩ | ⟨hposted, -⟩
      · obtain rfl : start = c.start := Option.some.inj (hmbox.symm.trans hposted)
        have hempty : (s.take cpu c.start).mbox cpu = none := Function.update_self ..
        refine .inr ⟨c, hcalls, .inr ⟨hempty, Function.update_self ..⟩, ?_⟩
        rcases hcalled.answer with ⟨hanswers, hquiet, -⟩ | ⟨hanswers, j, hj⟩
        · refine .inl ⟨hanswers, fun j c' hj => ?_, fun _ => hempty⟩
          exact hquiet j c' ((hnotifying j c').mp hj)
        · exact .inr ⟨hanswers, j, fun k c' => (hnotifying k c').trans (hj k c')⟩
      · cases hmbox.symm.trans hposted
  · have hvcpu : (s.take i start).vcpu cpu = s.vcpu cpu := Function.update_of_ne hcpu ..
    refine Frame.invAt ⟨Function.update_of_ne hcpu .., Function.update_of_ne hcpu .., rfl, rfl,
      hnotifying, fun hs => .inl (hvcpu.symm.trans hs), fun _ hs => hs.congr hvcpu rfl⟩ h

theorem waitForCpuOn_invAt {s : PsciSystem n} {i cpu : Fin n} (hi : s.vcpu i = .arriving)
    (h : s.InvAt cpu) : (s.waitForCpuOn i).InvAt cpu := by
  cases hmbox : s.mbox i with
  | some start =>
    have heq : s.waitForCpuOn i = s.take i start := by
      unfold waitForCpuOn
      rw [hmbox]
    rw [heq]
    exact take_invAt hi hmbox h
  | none =>
    have heq : s.waitForCpuOn i = s.setVcpu i (if s.running then .asleep else .gone) := by
      unfold waitForCpuOn
      rw [hmbox]
    rw [heq]
    have hframe : Frame s (s.setVcpu i (if s.running then .asleep else .gone)) cpu := by
      refine setVcpu_frame (fun cpu c hc => ?_) (fun cpu c hc => ?_) (fun _ => hmbox)
        (fun _ _ => ?_) cpu
      · cases hi.symm.trans hc
      · cases hrunning : s.running <;> rw [hrunning] at hc <;> cases hc
      · cases hrunning : s.running with
        | true => exact .inr (.inr (.inl rfl))
        | false => exact .inr (.inr (.inr (.inr rfl)))
    exact hframe.invAt h

theorem refuse_invAt {s : PsciSystem n} {cpu : Fin n}
    (hc : c.secondary n = none) (h : s.InvAt cpu) : (s.refuse c).InvAt cpu := by
  have hframe : Frame s (s.refuse c) cpu := by
    refine ⟨rfl, rfl, ?_, ?_, fun _ _ => .rfl, fun hs => .inl hs, fun _ hs => hs⟩
    · show (s.calls ++ [c]).filter _ = s.calls.filter _
      simp [hc]
    · show (s.answers ++ [(c, psciNotSupported)]).filter _ = s.answers.filter _
      simp [hc]
  exact hframe.invAt h

theorem post_called {s : PsciSystem n} {i cpu : Fin n} (hi : s.vcpu i = .running)
    (hc : c.secondary n = some cpu) (hnone : s.callsFor cpu = []) (h : s.Untouched cpu) :
    (s.post i cpu c).InvAt cpu := by
  refine .inr ⟨c, ?_, .inl ⟨Function.update_self .., h.started, ?_⟩, .inr ⟨h.answers, i, ?_⟩⟩
  · show (s.calls ++ [c]).filter _ = [c]
    rw [List.filter_append, show s.calls.filter _ = [] from hnone]
    simp [hc]
  · have hearly := h.early (secondary_ne_zero hc)
    by_cases hself : cpu = i
    · subst hself
      exact .inr (.inr (.inr (.inr (hearly.over hi))))
    · exact hearly.congr (Function.update_of_ne hself ..) rfl
  · intro j c'
    show Function.update s.vcpu i (.notifying cpu c) j = _ ↔ _
    by_cases hj : j = i
    · subst hj
      rw [Function.update_self]
      simp [eq_comm]
    · rw [Function.update_of_ne hj]
      exact iff_of_false (h.quiet j c') fun hc => hj hc.1

theorem post_frame {s : PsciSystem n} {i target cpu : Fin n} (hi : s.vcpu i = .running)
    (hc : c.secondary n = some target) (hcpu : cpu ≠ target) : Frame s (s.post i target c) cpu := by
  refine ⟨Function.update_of_ne hcpu .., rfl, ?_, rfl, fun j c' => ?_, fun hs => ?_, fun _ hs => ?_⟩
  · show (s.calls ++ [c]).filter _ = s.calls.filter _
    simp [hc, Ne.symm hcpu]
  · show Function.update s.vcpu i (.notifying target c) j = _ ↔ _
    by_cases hj : j = i
    · subst hj
      rw [Function.update_self, hi]
      refine iff_of_false (fun hn => hcpu ?_) fun hn => by cases hn
      cases hn
      rfl
    · rw [Function.update_of_ne hj]
  · by_cases hself : cpu = i
    · subst hself
      cases (Function.update_self ..).symm.trans hs
    · exact .inl ((Function.update_of_ne hself ..).symm.trans hs)
  · by_cases hself : cpu = i
    · subst hself
      exact .inr (.inr (.inr (.inr (hs.over hi))))
    · exact hs.congr (Function.update_of_ne hself ..) rfl

/-- A call for no secondary of the guest, or for one that no call was for. -/
theorem cpuOn_invAt {s : PsciSystem n} {i cpu : Fin n} (hi : s.vcpu i = .running)
    (hfresh : PsciAct.Fresh s (.call i c)) (h : s.InvAt cpu) : (s.cpuOn i c).InvAt cpu := by
  unfold cpuOn
  split
  · next hc => exact refuse_invAt hc h
  · next target hc =>
    by_cases hcpu : cpu = target
    · subst hcpu
      have hnone : s.callsFor cpu = [] := by
        refine List.filter_eq_nil_iff.mpr fun c' hc' => ?_
        simpa using hfresh cpu hc c' hc'
      rcases h with ⟨-, huntouched⟩ | ⟨c', hcalls, -⟩
      · exact post_called hi hc hnone huntouched
      · cases hnone.symm.trans hcalls
    · exact (post_frame hi hc hcpu).invAt h

theorem notify_vcpu (s : PsciSystem n) (i cpu : Fin n) (c : CpuOn) (j : Fin n) :
    (s.notify i cpu c).vcpu j =
      if j = i then .running
      else if j = cpu ∧ s.vcpu cpu = .asleep then .arriving else s.vcpu j := by
  show Function.update (s.notifyAll cpu).vcpu i .running j = _
  by_cases hj : j = i
  · rw [if_pos hj, hj, Function.update_self]
  · rw [Function.update_of_ne hj, if_neg hj]
    by_cases hs : s.vcpu cpu = .asleep
    · have hwoken : (s.notifyAll cpu).vcpu = Function.update s.vcpu cpu .arriving := by
        rw [notifyAll, if_pos hs]
        rfl
      rw [hwoken]
      by_cases hcpu : j = cpu
      · rw [if_pos ⟨hcpu, hs⟩, hcpu, Function.update_self]
      · rw [if_neg fun h => hcpu h.1, Function.update_of_ne hcpu]
    · rw [if_neg fun h => hs h.2, notifyAll, if_neg hs]

theorem notifyAll_tables (s : PsciSystem n) (cpu : Fin n) :
    (s.notifyAll cpu).mbox = s.mbox ∧ (s.notifyAll cpu).started = s.started ∧
      (s.notifyAll cpu).calls = s.calls ∧ (s.notifyAll cpu).running = s.running := by
  unfold notifyAll
  split
  · exact ⟨rfl, rfl, rfl, rfl⟩
  · exact ⟨rfl, rfl, rfl, rfl⟩

/-- A thread that notifies is in no other call, and no secondary goes back to sleep. -/
theorem notify_notifying {s : PsciSystem n} {i cpu : Fin n} (j target : Fin n) (c' : CpuOn) :
    (s.notify i cpu c).vcpu j = .notifying target c' ↔ j ≠ i ∧ s.vcpu j = .notifying target c' := by
  rw [notify_vcpu]
  by_cases hj : j = i
  · rw [if_pos hj]
    exact iff_of_false (fun h => by cases h) fun h => h.1 hj
  · rw [if_neg hj]
    split
    · next hs =>
      refine iff_of_false (fun h => by cases h) fun h => ?_
      rw [hs.1, hs.2] at h
      cases h.2
    · exact ⟨fun h => ⟨hj, h⟩, fun h => h.2⟩

theorem notify_early {s : PsciSystem n} {i target cpu : Fin n} (hi : s.vcpu i = .notifying target c)
    (h : s.Early cpu) : (s.notify i target c).Early cpu := by
  have hrunning : (s.notify i target c).running = s.running := (s.notifyAll_tables target).2.2.2
  unfold Early at h ⊢
  rw [notify_vcpu, hrunning]
  by_cases hcpu : cpu = i
  · subst hcpu
    rw [hi] at h
    simpa using h
  · rw [if_neg hcpu]
    split
    · exact .inr (.inl rfl)
    · exact h

/-- The call for a secondary is answered, and the secondary is awake. -/
theorem notify_called {s : PsciSystem n} {i cpu : Fin n} (hi : s.vcpu i = .notifying cpu c)
    (h : s.InvAt cpu) : (s.notify i cpu c).InvAt cpu := by
  obtain ⟨hmbox, hstarted, hcalls', -⟩ := s.notifyAll_tables cpu
  rcases h with ⟨-, huntouched⟩ | ⟨c₀, hcalls, hcalled⟩
  · exact absurd hi (huntouched.quiet i c)
  · rcases hcalled.answer with ⟨-, hquiet, -⟩ | ⟨hanswers, i₀, hi₀⟩
    · exact absurd hi (hquiet i c)
    · obtain ⟨rfl, rfl⟩ := (hi₀ i c).mp hi
      have htarget : c.secondary n = some cpu :=
        (mem_callsFor.mp (hcalls ▸ List.mem_singleton_self c)).2
      refine .inr ⟨c, ?_, ?_, .inl ⟨?_, fun j c' hj => ?_, fun hs => ?_⟩⟩
      · show (s.notifyAll cpu).calls.filter _ = [c]
        rw [hcalls']
        exact hcalls
      · show (s.notifyAll cpu).mbox cpu = _ ∧ (s.notifyAll cpu).started cpu = _ ∧ _ ∨
          (s.notifyAll cpu).mbox cpu = _ ∧ (s.notifyAll cpu).started cpu = _
        rw [hmbox, hstarted]
        exact hcalled.posted.imp (fun hp => ⟨hp.1, hp.2.1, notify_early hi hp.2.2⟩) id
      · show (s.answers ++ [(c, psciSuccess)]).filter _ = _
        rw [List.filter_append, show s.answers.filter _ = [] from hanswers]
        simp [htarget]
      · obtain ⟨hne, hj⟩ := (notify_notifying j cpu c').mp hj
        exact hne ((hi₀ j c').mp hj).1
      · rw [notify_vcpu] at hs
        split at hs
        · cases hs
        · split at hs
          · cases hs
          · next hnot => exact absurd ⟨rfl, hs⟩ hnot

theorem notify_frame {s : PsciSystem n} {i target cpu : Fin n} (hi : s.vcpu i = .notifying target c)
    (hc : c.secondary n = some target) (hcpu : cpu ≠ target) :
    Frame s (s.notify i target c) cpu := by
  obtain ⟨hmbox, hstarted, hcalls, -⟩ := s.notifyAll_tables target
  refine ⟨congrFun hmbox cpu, congrFun hstarted cpu, ?_, ?_, fun j c' => ?_, fun hs => ?_,
    fun _ hs => notify_early hi hs⟩
  · show (s.notifyAll target).calls.filter _ = _
    rw [hcalls]
    rfl
  · show (s.answers ++ [(c, psciSuccess)]).filter _ = s.answers.filter _
    simp [hc, Ne.symm hcpu]
  · rw [notify_notifying]
    refine ⟨fun h => h.2, fun h => ⟨fun hj => hcpu ?_, h⟩⟩
    rw [hj, hi] at h
    cases h
    rfl
  · rw [notify_vcpu] at hs
    split at hs
    · cases hs
    · rw [if_neg fun h => hcpu h.1] at hs
      exact .inl hs

/-- **A step in which no second call is made for a secondary keeps the invariant.** -/
theorem FreshStep.invAt {a : PsciAct n} {s s' : PsciSystem n} (h : ∀ cpu, s.InvAt cpu)
    (hstep : FreshStep a s s') (cpu : Fin n) : s'.InvAt cpu := by
  obtain ⟨hfresh, henabled, rfl⟩ := hstep
  have hnot : ∀ {i : Fin n} {v : PsciVcpuAt n}, s.vcpu i = v → (∀ cpu c, v ≠ .notifying cpu c) →
      ∀ cpu c, s.vcpu i ≠ .notifying cpu c := fun hv hne cpu c hc => hne cpu c (hv.symm.trans hc)
  cases a with
  | create i =>
    have hframe : Frame s (s.setVcpu i (if i.val = 0 then .running else .arriving)) cpu := by
      refine setVcpu_frame (hnot henabled fun _ _ hc => by cases hc)
        (fun _ _ hc => ?_) (fun hv => ?_) (fun hi _ => ?_) cpu
      · split at hc <;> cases hc
      · split at hv <;> cases hv
      · exact .inr (.inl (if_neg hi))
    exact hframe.invAt (h cpu)
  | fail i =>
    have hframe : Frame s (s.setVcpu i .failed) cpu :=
      setVcpu_frame (hnot henabled fun _ _ hc => by cases hc) (fun _ _ hc => by cases hc)
        (fun hv => by cases hv) (fun _ _ => .inr (.inr (.inr (.inl rfl)))) cpu
    exact hframe.invAt (h cpu)
  | exit i =>
    have hframe : Frame s (s.setVcpu i .gone) cpu :=
      setVcpu_frame (hnot henabled fun _ _ hc => by cases hc) (fun _ _ hc => by cases hc)
        (fun hv => by cases hv) (fun _ hs => .inr (.inr (.inr (.inr (hs.over henabled))))) cpu
    exact hframe.invAt (h cpu)
  | stop =>
    have hframe : Frame s { s with running := false } cpu :=
      ⟨rfl, rfl, rfl, rfl, fun _ _ => .rfl, .inl, fun _ _ => .inr (.inr (.inr (.inr rfl)))⟩
    exact hframe.invAt (h cpu)
  | wake i =>
    have hframe : Frame s (s.setVcpu i .arriving) cpu :=
      setVcpu_frame (hnot henabled fun _ _ hc => by cases hc) (fun _ _ hc => by cases hc)
        (fun hv => by cases hv) (fun _ _ => .inr (.inl rfl)) cpu
    exact hframe.invAt (h cpu)
  | check i => exact waitForCpuOn_invAt henabled (h cpu)
  | call i c => exact cpuOn_invAt henabled hfresh (h cpu)
  | notify i =>
    obtain ⟨target, c, hi⟩ := henabled
    have heq : PsciAct.effect s (.notify i) = s.notify i target c := by
      simp only [PsciAct.effect, hi]
    rw [heq]
    by_cases hcpu : cpu = target
    · subst hcpu
      exact notify_called hi (h cpu)
    · -- the call is one that was made
      have hc : c.secondary n = some target := by
        rcases h target with ⟨-, huntouched⟩ | ⟨c₀, hcalls, hcalled⟩
        · exact absurd hi (huntouched.quiet i c)
        · rcases hcalled.answer with ⟨-, hquiet, -⟩ | ⟨-, i₀, hi₀⟩
          · exact absurd hi (hquiet i c)
          · rw [((hi₀ i c).mp hi).2]
            exact (mem_callsFor.mp (hcalls ▸ List.mem_singleton_self c₀)).2
      exact (notify_frame hi hc hcpu).invAt (h cpu)

/-- **Every secondary is brought up once**, while no two calls are for the same secondary.  For a
secondary that a call is for, this is the only such call.  It is answered with success, unless its
caller is still on the way to the notify.  The secondary starts with no other entry point and
context id than those of the call, and once the call is answered it has started, or is on its way to
the mailbox that holds them, or it could not be created, or the VM is stopped. -/
theorem cpu_on_once {s : PsciSystem n} (h : Steps FreshStep (fun _ => True) {} s) {cpu : Fin n}
    {c : CpuOn} (hc : c ∈ s.calls) (hcpu : c.secondary n = some cpu) :
    s.callsFor cpu = [c] ∧
      (s.answersFor cpu = [(c, psciSuccess)] ∨
        s.answersFor cpu = [] ∧ ∃ i, s.vcpu i = .notifying cpu c) ∧
      (∀ start, s.started cpu = some start → start = (c.entry, c.context)) ∧
      (s.answersFor cpu = [(c, psciSuccess)] →
        s.started cpu = some (c.entry, c.context) ∨
        s.mbox cpu = some (c.entry, c.context) ∧ (s.vcpu cpu = .creating ∨ s.vcpu cpu = .arriving) ∨
        s.vcpu cpu = .failed ∨ s.running = false) := by
  have hinit : ∀ cpu, InvAt ({} : PsciSystem n) cpu := fun cpu =>
    .inl ⟨rfl, rfl, rfl, rfl, fun _ _ hc => (by cases hc), fun _ => .inl rfl⟩
  have hinv : ∀ cpu, s.InvAt cpu := h.inv (fun _ hstep hs => FreshStep.invAt hs hstep) hinit
  have hmem : c ∈ s.callsFor cpu := mem_callsFor.mpr ⟨hc, hcpu⟩
  rcases hinv cpu with ⟨hcalls, -⟩ | ⟨c₀, hcalls, hcalled⟩
  · rw [hcalls] at hmem
    cases hmem
  · rw [hcalls, List.mem_singleton] at hmem
    subst hmem
    refine ⟨hcalls, ?_, fun start hstart => ?_, fun hanswers => ?_⟩
    · refine hcalled.answer.imp (fun ha => ha.1) fun ha => ⟨ha.1, ?_⟩
      obtain ⟨-, i, hi⟩ := ha
      exact ⟨i, (hi i c).mpr ⟨rfl, rfl⟩⟩
    · rcases hcalled.posted with ⟨-, hnone, -⟩ | ⟨-, hsome⟩
      · cases hnone.symm.trans hstart
      · exact Option.some.inj (hstart.symm.trans hsome)
    · rcases hcalled.posted with ⟨hposted, -, hearly⟩ | ⟨-, hsome⟩
      · rcases hcalled.answer with ⟨-, -, hasleep⟩ | ⟨hnone, -⟩
        · rcases hearly with hv | hv | hv | hover
          · exact .inr (.inl ⟨hposted, .inl hv⟩)
          · exact .inr (.inl ⟨hposted, .inr hv⟩)
          · cases hposted.symm.trans (hasleep hv)
          · exact .inr (.inr hover)
        · cases hnone.symm.trans hanswers
      · exact .inl hsome

/-- vCPU 0, and the one secondary beside it. -/
def bootCpu : Fin 2 := ⟨0, Nat.two_pos⟩
def secondCpu : Fin 2 := ⟨1, Nat.one_lt_two⟩

/-- Two calls for the secondary. -/
def firstOn : CpuOn := ⟨1, 0x40080000, 7⟩
def secondOn : CpuOn := ⟨1, 0x40090000, 8⟩

/-- The secondary goes to sleep, and the first call starts it. -/
def bringUp : List (PsciAct 2) :=
  [.create bootCpu, .create secondCpu, .check secondCpu, .call bootCpu firstOn, .notify bootCpu,
    .check secondCpu]

theorem cpu_on_once_bringUp :
    ∃ s : PsciSystem 2, Steps FreshStep (fun _ => True) {} s ∧ firstOn ∈ s.calls ∧
      s.callsFor secondCpu = [firstOn] ∧ s.started secondCpu = some (0x40080000, 7) := by
  have hgoes : Goes (fun s a => a.Fresh s ∧ a.Enabled s) PsciAct.effect bringUp {} :=
    ⟨⟨trivial, rfl⟩, ⟨trivial, rfl⟩, ⟨trivial, rfl⟩, ⟨fun _ _ _ hc => (by cases hc), rfl⟩,
      ⟨trivial, secondCpu, firstOn, rfl⟩, ⟨trivial, rfl⟩, trivial⟩
  have hsteps : Steps FreshStep (fun _ => True) {} (bringUp.foldl PsciAct.effect {}) :=
    hgoes.steps.simulate fun _ h => ⟨h.1.1, h.1.2, h.2⟩
  have hmem : firstOn ∈ (bringUp.foldl PsciAct.effect {}).calls := .head _
  exact ⟨_, hsteps, hmem, (cpu_on_once hsteps hmem (by decide)).1, rfl⟩

/-- The first call is overtaken by a second one before the secondary looks into its mailbox. -/
def bringUpTwice : List (PsciAct 2) :=
  [.create bootCpu, .create secondCpu, .check secondCpu, .call bootCpu firstOn, .notify bootCpu,
    .call bootCpu secondOn, .notify bootCpu, .check secondCpu]

/-- A second call for the secondary is answered with success like the first, and the secondary
starts with what the second one asked for. -/
theorem second_call_succeeds :
    ∃ s : PsciSystem 2, Steps Step (fun _ => True) {} s ∧
      s.answersFor secondCpu = [(firstOn, psciSuccess), (secondOn, psciSuccess)] ∧
      s.started secondCpu = some secondOn.start ∧ firstOn.start ≠ secondOn.start := by
  have hgoes : Goes (fun s a => a.Enabled s) PsciAct.effect bringUpTwice {} :=
    ⟨rfl, rfl, rfl, rfl, ⟨secondCpu, firstOn, rfl⟩, rfl, ⟨secondCpu, secondOn, rfl⟩, rfl, trivial⟩
  exact ⟨_, hgoes.steps, by decide, by decide, by decide⟩

end PsciSystem
