/-
A pause holds the guest still.

Two things keep a vCPU out of the guest: while the request stands, a vCPU that has not yet passed
its checkpoint parks there; and once the running flag is cleared and the kicks are made, every vCPU
has the mark of a kick or will read the flag before its next run.

* `Pausing.Inv` — the invariant, kept by every step in which no stop overtakes the kicks of the
  first one (`Step.inv`);
* `Pausing.paused_still` — what a pause and its release guarantee in such runs;
* `Pausing.overtaken_pause` — a second stop that releases the request before the first has made its
  kicks lets a vCPU back into the guest while it is paused;
* `Pausing.counters_exact` — the counters, in every interleaving.
-/
import HviVmm.LabelledSteps
import HviVmm.PauseMoves

open LabelledSteps

/-- Between the raising of the request and the end of the pause. -/
def PauserAt.asks {n : ℕ} : PauserAt n → Bool
  | .unstarted | .idle | .releasing | .notifying => false
  | _ => true

/-- A stop that finds the running flag cleared finds the kicks made. -/
def PauseAct.Fine {n m : ℕ} (s : Pausing n m) (a : PauseAct n m) : Prop :=
  ∀ t, a = .stop t → s.running = true ∨ s.kicksDone = true

/-- Whether the step is a call of `stop`. -/
def PauseAct.isStop {n m : ℕ} : PauseAct n m → Bool
  | .stop _ => true
  | _ => false

namespace Pausing

variable {n m : ℕ} {s s' : Pausing n m} {a : PauseAct n m}

/-! ### The invariant -/

/-- The vCPU is marked by a kick, or will read the running flag before its next run. -/
def Hit (s : Pausing n m) (i : Fin n) : Prop := s.kicked i = true ∨ (s.vcpu i).rereads = true

/-- No vCPU is in the guest, nor can one come into it before the request is released: it stands and
no vCPU has passed its checkpoint, or the VM is stopped and every vCPU is kicked. -/
def Still (s : Pausing n m) : Prop :=
  (s.requested = true ∧ ∀ i, s.vcpu i ≠ .entering ∧ s.vcpu i ≠ .inGuest) ∨
    (s.kicksDone = true ∧ ∀ i, s.vcpu i ≠ .inGuest)

/-- What holds while a stop is at this place. -/
def StopperOk (s : Pausing n m) : StopperAt n → Prop
  | .idle => True
  | .stopped => s.running = false
  | .kicking left => s.running = false ∧ ∀ i, ¬s.Hit i → i ∈ left
  | .releasing | .notifying => s.kicksDone = true

structure Inv (s : Pausing n m) : Prop where
  counts : s.Counts
  quiet : s.pauser = .unstarted ∨ s.pauser = .idle → s.requested = false ∧ s.released = true
  notifying : s.pauser = .notifying → s.requested = false
  raised : s.pauser.asks = true → s.requested = true ∨ s.kicksDone = true
  released : s.released = true → s.requested = false ∧ ∀ i, s.vcpu i ≠ .asleep
  stoppers : ∀ t, s.StopperOk (s.stopper t)
  done : s.kicksDone = true → s.running = false ∧ ∀ i, s.Hit i
  deciding : s.pauser = .deciding → s.running = false ∨ s.Still
  paused : s.pauser = .paused → s.Still

theorem hit_effect (hen : a.Enabled s) (hrun : s.running = false) {i : Fin n} (h : s.Hit i) :
    (a.effect s).Hit i :=
  (hrun ▸ effect_move hen i).hit h

theorem still_effect (hinv : s.Inv) (hen : a.Enabled s) (h : s.Still) (ha : a ≠ .release) :
    (a.effect s).Still := by
  rcases h with ⟨hreq, hout⟩ | ⟨hdone, hout⟩
  · by_cases hstop : ∃ t, a = .stopRelease t
    · -- the stop has made its kicks before
      obtain ⟨t, rfl⟩ := hstop
      have hok := hinv.stoppers t
      rw [show s.stopper t = _ from hen] at hok
      exact .inr ⟨hok, fun i => (hout i).2⟩
    · refine .inl ⟨stands_effect hreq ha fun t ht => hstop ⟨t, ht⟩, fun i => ?_⟩
      exact (hreq ▸ effect_move hen i).held (hout i)
  · refine .inr ⟨kicksDone_effect hdone, fun i => ?_⟩
    exact (effect_move hen i).not_inGuest ((hinv.done hdone).2 i) (hout i)

theorem done_effect (hinv : s.Inv) (hen : a.Enabled s) (hdone : (a.effect s).kicksDone = true) :
    (a.effect s).running = false ∧ ∀ i, (a.effect s).Hit i := by
  by_cases hbefore : s.kicksDone = true
  · obtain ⟨hrun, hhit⟩ := hinv.done hbefore
    exact ⟨running_effect hrun, fun i => hit_effect hen hrun (hhit i)⟩
  · cases a with
    | stopUnlockTable t =>
      have hok := hinv.stoppers t
      rw [show s.stopper t = _ from hen] at hok
      refine ⟨hok.1, fun i => ?_⟩
      by_contra hi
      cases hok.2 i hi
    | kickNext =>
      obtain ⟨i, left, hp⟩ := hen
      simp only [PauseAct.effect, hp] at hdone
      exact absurd hdone hbefore
    | stopKickNext t =>
      obtain ⟨i, left, hp⟩ := hen
      simp only [PauseAct.effect, hp] at hdone
      exact absurd hdone hbefore
    | _ => exact absurd hdone hbefore

theorem stopperOk_effect (hen : a.Enabled s) {p : StopperAt n} (h : s.StopperOk p) :
    (a.effect s).StopperOk p := by
  cases p with
  | idle => trivial
  | stopped => exact running_effect h
  | kicking left =>
    refine ⟨running_effect h.1, fun i hi => h.2 i fun hhit => ?_⟩
    exact hi (hit_effect hen h.1 hhit)
  | releasing => exact kicksDone_effect h
  | notifying => exact kicksDone_effect h

/-- The place of a stop that has acted, and of the others. -/
theorem setStopper_ok (x : Pausing n m) {t : Fin m} {p : StopperAt n}
    (hx : x.stopper = Function.update s.stopper t p) (hp : x.StopperOk p)
    (hothers : ∀ t', x.StopperOk (s.stopper t')) (t' : Fin m) : x.StopperOk (x.stopper t') := by
  rw [hx]
  by_cases ht : t' = t
  · subst ht
    rwa [Function.update_self]
  · rw [Function.update_of_ne ht]
    exact hothers t'

theorem stoppers_effect (hinv : s.Inv) (hen : a.Enabled s) (hfine : a.Fine s) (t : Fin m) :
    (a.effect s).StopperOk ((a.effect s).stopper t) := by
  have hothers : ∀ t, (a.effect s).StopperOk (s.stopper t) := fun t =>
    stopperOk_effect hen (hinv.stoppers t)
  cases a with
  | stop t' =>
    refine setStopper_ok (PauseAct.effect s (.stop t')) rfl ?_ hothers t
    cases hrun : s.running with
    | true => exact rfl
    | false =>
      rcases hfine t' rfl with hrun' | hdone
      · rw [hrun] at hrun'
        cases hrun'
      · exact hdone
  | stopLockTable t' =>
    have hok := hinv.stoppers t'
    rw [hen.1] at hok
    refine setStopper_ok (PauseAct.effect s (.stopLockTable t')) rfl ⟨hok, fun i hi => ?_⟩ hothers t
    -- what is not hit is past the running check, so it is in the table
    refine List.mem_filter.mpr ⟨List.mem_finRange i, bne_iff_ne.mpr fun hoff => hi (.inr ?_)⟩
    show (s.vcpu i).rereads = true
    rw [hoff]
    rfl
  | stopKickNext t' =>
    obtain ⟨i, left, hp⟩ := hen
    have hok := hinv.stoppers t'
    rw [hp] at hok
    simp only [PauseAct.effect, hp] at hothers ⊢
    refine setStopper_ok ((s.kick i).setStopper t' (.kicking left)) rfl ⟨hok.1, fun j hj => ?_⟩
      hothers t
    have hne : j ≠ i := by
      rintro rfl
      exact hj (.inl (Function.update_self ..))
    refine List.mem_of_ne_of_mem hne (hok.2 j fun hhit => hj ?_)
    rcases hhit with hk | hr
    · exact .inl ((Function.update_of_ne hne ..).trans hk)
    · exact .inr hr
  | stopUnlockTable t' =>
    exact setStopper_ok (PauseAct.effect s (.stopUnlockTable t')) rfl rfl hothers t
  | stopRelease t' =>
    have hok := hinv.stoppers t'
    rw [show s.stopper t' = _ from hen] at hok
    exact setStopper_ok (PauseAct.effect s (.stopRelease t')) rfl hok hothers t
  | stopNotify t' =>
    exact setStopper_ok (PauseAct.effect s (.stopNotify t')) rfl trivial hothers t
  | kickNext =>
    obtain ⟨i, left, hp⟩ := hen
    simp only [PauseAct.effect, hp] at hothers ⊢
    exact hothers t
  | _ => exact hothers t

theorem released_effect (hinv : s.Inv) (hen : a.Enabled s) (h : (a.effect s).released = true) :
    (a.effect s).requested = false ∧ ∀ i, (a.effect s).vcpu i ≠ .asleep := by
  have hnotify : ∀ i, s.notifyAll.vcpu i ≠ .asleep := by
    intro i
    show (if s.vcpu i = .asleep then VcpuAt.woken else s.vcpu i) ≠ _
    split
    · intro hi
      cases hi
    · next hi => exact hi
  have hkept : s.released = true → a ≠ .request →
      (a.effect s).requested = false ∧ ∀ i, (a.effect s).vcpu i ≠ .asleep := by
    intro hrel ha
    obtain ⟨hreq, hall⟩ := hinv.released hrel
    exact ⟨requested_effect hreq ha, fun i => (hreq ▸ effect_move hen i).not_asleep (hall i)⟩
  cases a with
  | request => cases h
  | notify => exact ⟨(Bool.not_eq_true' s.requested).mp h, hnotify⟩
  | stopNotify t => exact ⟨(Bool.not_eq_true' s.requested).mp h, hnotify⟩
  | kickNext =>
    obtain ⟨i, left, hp⟩ := hen
    simp only [PauseAct.effect, hp] at h
    exact hkept h fun ha => by cases ha
  | stopKickNext t =>
    obtain ⟨i, left, hp⟩ := hen
    simp only [PauseAct.effect, hp] at h
    exact hkept h fun ha => by cases ha
  | _ => exact hkept h fun ha => by cases ha

/-- The wait has ended with as many parked as have started: every vCPU that has is parked. -/
theorem all_parked (h : s.Counts) (hp : s.pauser = .counting) (hle : ¬s.parked < s.started - 1)
    (i : Fin n) : s.vcpu i ≠ .entering ∧ s.vcpu i ≠ .inGuest := by
  have hsub : (Finset.univ.filter fun i => (s.vcpu i).isParked = true) ⊆
      Finset.univ.filter fun i => (s.vcpu i).isStarted = true := by
    intro i hi
    have hparked := (Finset.mem_filter.mp hi).2
    refine Finset.mem_filter.mpr ⟨Finset.mem_univ i, ?_⟩
    cases hv : s.vcpu i <;> rw [hv] at hparked <;> first | rfl | cases hparked
  have hstarted := h.started
  rw [if_neg (by rw [hp]; nofun)] at hstarted
  have hcard : count VcpuAt.isStarted s.vcpu ≤ count VcpuAt.isParked s.vcpu := by
    have := h.parked
    omega
  have heq := Finset.eq_of_subset_of_card_le hsub hcard
  have hnone : (s.vcpu i).isStarted = true → (s.vcpu i).isParked = true := by
    intro hi
    have hmem : i ∈ Finset.univ.filter fun i => (s.vcpu i).isStarted = true :=
      Finset.mem_filter.mpr ⟨Finset.mem_univ i, hi⟩
    rw [← heq] at hmem
    exact (Finset.mem_filter.mp hmem).2
  constructor
  · intro hi
    rw [hi] at hnone
    cases hnone rfl
  · intro hi
    rw [hi] at hnone
    cases hnone rfl

/-! ### The pausing thread -/

/-- A request that is released stays so until the next one. -/
theorem released_keeps (h : s.requested = false) (hrel : s.released = true) (ha : a ≠ .request) :
    (a.effect s).released = true := by
  cases a with
  | request => exact absurd rfl ha
  | notify => exact (Bool.not_eq_true' s.requested).mpr h
  | stopNotify t => exact (Bool.not_eq_true' s.requested).mpr h
  | kickNext => simp only [PauseAct.effect]; split <;> exact hrel
  | stopKickNext t => simp only [PauseAct.effect]; split <;> exact hrel
  | _ => exact hrel

theorem quiet_effect (hinv : s.Inv) (hen : a.Enabled s)
    (h : (a.effect s).pauser = .unstarted ∨ (a.effect s).pauser = .idle) :
    (a.effect s).requested = false ∧ (a.effect s).released = true := by
  have hkept : s.pauser = .unstarted ∨ s.pauser = .idle → a ≠ .request →
      (a.effect s).requested = false ∧ (a.effect s).released = true := by
    intro hp ha
    obtain ⟨hreq, hrel⟩ := hinv.quiet hp
    exact ⟨requested_effect hreq ha, released_keeps hreq hrel ha⟩
  have hmove := effect_pauserMove hen
  generalize hp : s.pauser = p at hmove
  generalize hp' : (a.effect s).pauser = p' at hmove h
  cases hmove with
  | other ha => exact hkept h ha.1
  | start => exact hkept (.inl hp) nofun
  | notify =>
    have hreq := hinv.notifying hp
    exact ⟨hreq, (Bool.not_eq_true' s.requested).mpr hreq⟩
  | readRunning =>
    rcases h with h | h <;> split at h <;> cases h
  | readStarted expired =>
    rcases h with h | h <;> split at h <;> first | cases h | (split at h <;> cases h)
  | decide =>
    rcases h with h | h <;> split at h <;> cases h
  | _ => rcases h with h | h <;> cases h

theorem notifying_effect (hinv : s.Inv) (hen : a.Enabled s) (h : (a.effect s).pauser = .notifying) :
    (a.effect s).requested = false := by
  have hmove := effect_pauserMove hen
  generalize hp : s.pauser = p at hmove
  generalize hp' : (a.effect s).pauser = p' at hmove h
  cases hmove with
  | other ha => exact requested_effect (hinv.notifying h) ha.1
  | release => rfl
  | readRunning => split at h <;> cases h
  | readStarted expired => split at h <;> first | cases h | (split at h <;> cases h)
  | decide => split at h <;> cases h
  | _ => cases h

/-- The request stands until the pausing thread or a stop releases it. -/
theorem raised_keeps (hinv : s.Inv) (hen : a.Enabled s)
    (h : s.requested = true ∨ s.kicksDone = true) (ha : a ≠ .release) :
    (a.effect s).requested = true ∨ (a.effect s).kicksDone = true := by
  rcases h with hreq | hdone
  · by_cases hstop : ∃ t, a = .stopRelease t
    · obtain ⟨t, rfl⟩ := hstop
      have hok := hinv.stoppers t
      rw [show s.stopper t = _ from hen] at hok
      exact .inr hok
    · exact .inl (stands_effect hreq ha fun t ht => hstop ⟨t, ht⟩)
  · exact .inr (kicksDone_effect hdone)

theorem raised_effect (hinv : s.Inv) (hen : a.Enabled s) (h : (a.effect s).pauser.asks = true) :
    (a.effect s).requested = true ∨ (a.effect s).kicksDone = true := by
  have hkept : s.pauser.asks = true → a ≠ .release →
      (a.effect s).requested = true ∨ (a.effect s).kicksDone = true := fun hasks ha =>
    raised_keeps hinv hen (hinv.raised hasks) ha
  have hmove := effect_pauserMove hen
  generalize hp : s.pauser = p at hmove
  generalize hp' : (a.effect s).pauser = p' at hmove h
  cases hmove with
  | other ha => exact hkept h ha.2.1
  | wake ha => exact hkept (by rw [hp]; rfl) ha.2.1
  | request => exact .inl rfl
  | start | resume | release | notify => cases h
  | lockTable | kickNext | unlockTable | lockWait | relockWait | readRunning | readStarted expired
  | decide => exact hkept (by rw [hp]; rfl) nofun

theorem deciding_effect (hinv : s.Inv) (hen : a.Enabled s) (h : (a.effect s).pauser = .deciding) :
    (a.effect s).running = false ∨ (a.effect s).Still := by
  have hmove := effect_pauserMove hen
  generalize hp : s.pauser = p at hmove
  generalize hp' : (a.effect s).pauser = p' at hmove h
  cases hmove with
  | other ha =>
    rcases hinv.deciding h with hrun | hstill
    · exact .inl (running_effect hrun)
    · exact .inr (still_effect hinv hen hstill ha.2.1)
  | readRunning =>
    split at h
    · cases h
    · next hrun => exact .inl (Bool.not_eq_true _ ▸ hrun)
  | readStarted expired =>
    split at h
    · split at h <;> cases h
    · next hle =>
      -- every vCPU that has started is parked
      have hall := all_parked hinv.counts hp hle
      rcases hinv.raised (by rw [hp]; rfl) with hreq | hdone
      · exact .inr (.inl ⟨hreq, hall⟩)
      · exact .inl (hinv.done hdone).1
  | decide => split at h <;> cases h
  | _ => cases h

theorem paused_effect (hinv : s.Inv) (hen : a.Enabled s) (h : (a.effect s).pauser = .paused) :
    (a.effect s).Still := by
  have hmove := effect_pauserMove hen
  generalize hp : s.pauser = p at hmove
  generalize hp' : (a.effect s).pauser = p' at hmove h
  cases hmove with
  | other ha => exact still_effect hinv hen (hinv.paused h) ha.2.1
  | decide =>
    split at h
    · next hrun =>
      rcases hinv.deciding hp with hstopped | hstill
      · rw [hrun] at hstopped
        cases hstopped
      · exact hstill
    · cases h
  | readRunning => split at h <;> cases h
  | readStarted expired => split at h <;> first | cases h | (split at h <;> cases h)
  | _ => cases h

/-- **Every step keeps the invariant**, as long as no stop overtakes the kicks of the first. -/
theorem Step.inv (h : s.Inv) (hstep : Step a s s') (hfine : a.Fine s) : s'.Inv := by
  obtain ⟨hen, rfl⟩ := hstep
  exact {
    counts := counts_effect hen h.counts
    quiet := quiet_effect h hen
    notifying := notifying_effect h hen
    raised := raised_effect h hen
    released := released_effect h hen
    stoppers := stoppers_effect h hen hfine
    done := done_effect h hen
    deciding := deciding_effect h hen
    paused := paused_effect h hen }

/-! ### Runs -/

/-- A step in which no stop overtakes the kicks of the first one. -/
def FineStep (a : PauseAct n m) (s s' : Pausing n m) : Prop := Step a s s' ∧ a.Fine s

theorem init_inv : Inv ({} : Pausing n m) where
  counts := ⟨by simp [count, VcpuAt.isParked], by simp [count, VcpuAt.isStarted]⟩
  quiet _ := ⟨rfl, rfl⟩
  notifying := nofun
  raised := nofun
  released _ := ⟨rfl, fun _ => nofun⟩
  stoppers _ := trivial
  done := nofun
  deciding := nofun
  paused := nofun

/-- What is released stays released until the next request. -/
theorem released_steps {c : PauseAct n m} {s₁ s₂ : Pausing n m} (h : s.Inv)
    (hc : c = .notify ∨ ∃ t, c = .stopNotify t) (hstep : FineStep c s s₁)
      (hreq : s₁.requested = false)
    (hsteps : Steps FineStep (fun a => a ≠ .request) s₁ s₂) : s₂.Inv ∧ s₂.released = true := by
  have hrel : s₁.released = true := by
    obtain ⟨⟨-, rfl⟩, -⟩ := hstep
    rcases hc with rfl | ⟨t, rfl⟩
    · exact (Bool.not_eq_true' _).mpr hreq
    · exact (Bool.not_eq_true' _).mpr hreq
  refine hsteps.inv (P := fun s => s.Inv ∧ s.released = true) ?_ ⟨hstep.1.inv h hstep.2, hrel⟩
  intro s s' a ha hstep hs
  refine ⟨hstep.1.inv hs.1 hstep.2, ?_⟩
  obtain ⟨⟨-, rfl⟩, -⟩ := hstep
  exact released_keeps (hs.1.released hs.2).1 hs.2 ha

/-- **A pause holds the guest still, and its release holds no one.**  In every run in which a stop
that finds the running flag cleared finds the kicks of the first stop made: while `pause` has
returned true and `resume` is not called, no other vCPU executes guest code; outside, the request
is released; and from the end of any release that no request has followed, until the next request,
no vCPU waits in its checkpoint. -/
theorem paused_still (h : Steps FineStep (fun _ => True) ({} : Pausing n m) s) :
    (s.pauser = .paused → ∀ i, s.vcpu i ≠ .inGuest) ∧
      (s.pauser = .idle → s.requested = false) ∧
      (∀ s₁, FineStep .notify s s₁ → s₁.requested = false) ∧
      ∀ c s₁ s₂, (c = .notify ∨ ∃ t, c = .stopNotify t) → FineStep c s s₁ → s₁.requested = false →
        Steps FineStep (fun a => a ≠ .request) s₁ s₂ →
          s₂.requested = false ∧ ∀ i, s₂.vcpu i ≠ .asleep := by
  have hinv : s.Inv := h.inv (fun _ hstep hs => hstep.1.inv hs hstep.2) init_inv
  refine ⟨?_, fun hp => (hinv.quiet (.inr hp)).1, ?_, ?_⟩
  · intro hp i
    rcases hinv.paused hp with ⟨-, hout⟩ | ⟨-, hout⟩
    · exact (hout i).2
    · exact hout i
  · rintro s₁ ⟨⟨hen, rfl⟩, -⟩
    exact hinv.notifying hen.1
  · intro c s₁ s₂ hc hstep hreq hsteps
    obtain ⟨hinv₂, hrel⟩ := released_steps hinv hc hstep hreq hsteps
    exact hinv₂.released hrel

/-- The one vCPU, and the two callers of `stop`. -/
def theVcpu : Fin 1 := ⟨0, Nat.one_pos⟩
def firstStop : Fin 2 := ⟨0, Nat.two_pos⟩
def secondStop : Fin 2 := ⟨1, Nat.one_lt_two⟩

/-- The vCPU runs, is paused and parks. -/
def pauseOne : List (PauseAct 1 2) :=
  [.register theVcpu, .markStarted theVcpu, .loopTop theVcpu false, .checkRunning theVcpu,
    .arrive theVcpu, .enter theVcpu, .pauserStart, .request, .lockTable, .kickNext, .unlockTable,
    .leave theVcpu false, .loopTop theVcpu false, .checkRunning theVcpu, .arrive theVcpu,
    .park theVcpu, .recheck theVcpu, .lockWait, .readRunning, .readStarted false, .decide]

/-- A stop clears the running flag; before it kicks, a second one releases the request. -/
def overtake : List (PauseAct 1 2) :=
  [.stop firstStop, .stop secondStop, .stopRelease secondStop, .stopNotify secondStop,
    .relock theVcpu, .recheck theVcpu, .enter theVcpu]

theorem fine_of_isStop {a : PauseAct n m} (h : a.isStop = false) : a.Fine s := by
  rintro t rfl
  cases h

theorem pauseOne_goes : Goes (fun s a => a.Enabled s ∧ a.Fine s) PauseAct.effect pauseOne {} :=
  have hfine : ∀ {a : PauseAct 1 2} {s : Pausing 1 2}, a.Enabled s → a.isStop = false →
      a.Enabled s ∧ a.Fine s := fun hen ha => ⟨hen, fine_of_isStop ha⟩
  ⟨hfine ⟨rfl, rfl⟩ rfl, hfine rfl rfl, hfine rfl rfl, hfine rfl rfl, hfine rfl rfl,
    hfine rfl rfl, hfine rfl rfl, hfine rfl rfl, hfine ⟨rfl, rfl⟩ rfl,
    hfine ⟨theVcpu, [], rfl⟩ rfl, hfine rfl rfl, hfine rfl rfl, hfine rfl rfl, hfine rfl rfl,
    hfine rfl rfl, hfine ⟨rfl, rfl⟩ rfl, hfine rfl rfl, hfine ⟨rfl, rfl⟩ rfl, hfine rfl rfl,
    hfine rfl rfl, hfine rfl rfl, trivial⟩

theorem pauseOne_steps : Steps FineStep (fun _ => True) {} (pauseOne.foldl PauseAct.effect {}) :=
  pauseOne_goes.steps.simulate fun _ h => ⟨⟨h.1.1, h.2⟩, h.1.2⟩

theorem paused_still_one :
    ∃ s : Pausing 1 2, Steps FineStep (fun _ => True) {} s ∧ s.pauser = .paused ∧
      ∀ i, s.vcpu i ≠ .inGuest :=
  ⟨_, pauseOne_steps, rfl, (paused_still pauseOne_steps).1 rfl⟩

/-- A second stop releases the request before the first has made its kicks, and the parked vCPU is
back in the guest while it is paused. -/
theorem overtaken_pause :
    ∃ s : Pausing 1 2, Steps Step (fun _ => True) {} s ∧ s.pauser = .paused ∧
      s.vcpu 0 = .inGuest := by
  have hover : Goes (fun s a => a.Enabled s) PauseAct.effect overtake
      (pauseOne.foldl PauseAct.effect {}) :=
    ⟨rfl, rfl, rfl, ⟨rfl, rfl⟩, ⟨rfl, rfl⟩, rfl, rfl, trivial⟩
  exact ⟨_, (pauseOne_steps.simulate fun _ h => h.1).trans hover.steps, rfl, rfl⟩

/-- **The counters of the quiesce are exact.**  In every interleaving, stops at any moment included,
`parked` is the number of vCPUs in a checkpoint, and `started` that of the threads `pause` has to
wait for, the pausing one among them, so that the first never passes the second. -/
theorem counters_exact (h : Steps Step (fun _ => True) ({} : Pausing n m) s) :
    s.parked = count VcpuAt.isParked s.vcpu ∧
      s.started = count VcpuAt.isStarted s.vcpu + (if s.pauser = .unstarted then 0 else 1) ∧
      s.parked ≤ s.started := by
  have hcounts : s.Counts := by
    refine h.inv (fun _ hstep hs => ?_) init_inv.counts
    obtain ⟨hen, rfl⟩ := hstep
    exact counts_effect hen hs
  refine ⟨hcounts.parked, hcounts.started, ?_⟩
  have hle : count VcpuAt.isParked s.vcpu ≤ count VcpuAt.isStarted s.vcpu := by
    refine Finset.card_le_card (Finset.monotone_filter_right _ fun i _ hparked => ?_)
    cases hi : s.vcpu i <;> simp_all [VcpuAt.isParked, VcpuAt.isStarted]
  rw [hcounts.parked, hcounts.started]
  exact hle.trans (Nat.le_add_right _ _)

theorem counters_exact_one :
    ∃ s : Pausing 1 2, s.pauser = .paused ∧ s.parked = 1 ∧
      s.parked = count VcpuAt.isParked s.vcpu :=
  ⟨_, rfl, rfl, (counters_exact (pauseOne_steps.simulate fun _ h => h.1)).1⟩

end Pausing
