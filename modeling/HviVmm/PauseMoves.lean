/-
What an action of the pausing protocol does.

What an action does to one vCPU is one of a few moves, `VcpuMove`, and what it does to the pausing
thread is one of `PauserMove`; what is said of them later is kept by every move.

* `Pausing.effect_move`, `Pausing.effect_pauserMove` — every action moves every vCPU, and the
  pausing thread, by a move;
* `Pausing.counts_effect` — the two counters count the vCPUs that have started and that are parked.
-/
import HviVmm.Quiesce

/-! ### One vCPU -/

/-- What can become of a vCPU and of its mark in one action, with the two flags as the action
finds them. -/
inductive VcpuMove (running requested : Bool) : VcpuAt × Bool → VcpuAt × Bool → Prop
  | stay (x : VcpuAt × Bool) : VcpuMove running requested x x
  | kick (v : VcpuAt) (k : Bool) : VcpuMove running requested (v, k) (v, true)
  | register (k : Bool) : VcpuMove running requested (.off, k) (.registered, k)
  | start (k : Bool) : VcpuMove running requested (.registered, k) (.top, k)
  | loopTop (k keep : Bool) : VcpuMove running requested (.top, k) (.checking, keep && k)
  | check (k : Bool) :
      VcpuMove running requested (.checking, k) (if running then .arriving else .exited, k)
  | arrive (k : Bool) :
      VcpuMove running requested (.arriving, k) (if requested then .seen else .entering, k)
  | park (k : Bool) : VcpuMove running requested (.seen, k) (.counted, k)
  | recheck (k : Bool) :
      VcpuMove running requested (.counted, k) (if requested then .asleep else .entering, k)
  | wake (k : Bool) : VcpuMove running requested (.asleep, k) (.woken, k)
  | relock (k : Bool) : VcpuMove running requested (.woken, k) (.counted, k)
  | enter (k : Bool) : VcpuMove running requested (.entering, k) (if k then .top else .inGuest, k)
  | leave (quit k : Bool) :
      VcpuMove running requested (.inGuest, k) (if quit then .exited else .top, k)

/-- Whether the vCPU reads the running flag before it next enters the guest. -/
def VcpuAt.rereads : VcpuAt → Bool
  | .off | .registered | .top | .checking | .exited => true
  | _ => false

namespace VcpuMove

variable {running requested : Bool} {x y : VcpuAt × Bool}

/-- With the running flag cleared, a vCPU that will not run again stays so. -/
theorem hit (h : VcpuMove false requested x y) (hx : x.2 = true ∨ x.1.rereads = true) :
    y.2 = true ∨ y.1.rereads = true := by
  cases h with
  | stay x => exact hx
  | kick v k => exact .inl rfl
  | register k | start k | loopTop k keep | check k => exact .inr rfl
  | leave quit k => exact .inr (by cases quit <;> rfl)
  | enter k =>
    rcases hx with hk | hr
    · exact .inl hk
    · cases hr
  | arrive k | park k | recheck k | wake k | relock k =>
    rcases hx with hk | hr
    · exact .inl hk
    · cases hr

theorem not_inGuest (h : VcpuMove running requested x y)
    (hx : x.2 = true ∨ x.1.rereads = true) (hout : x.1 ≠ .inGuest) : y.1 ≠ .inGuest := by
  cases h with
  | stay x => exact hout
  | kick v k => exact hout
  | register k | start k | loopTop k keep | park k | wake k | relock k => exact nofun
  | check k => cases running <;> exact nofun
  | arrive k | recheck k => cases requested <;> exact nofun
  | enter k =>
    rcases hx with rfl | hr
    · exact nofun
    · cases hr
  | leave quit k => exact absurd rfl hout

/-- While the request stands, no vCPU passes its checkpoint. -/
theorem held (h : VcpuMove running true x y) (hx : x.1 ≠ .entering ∧ x.1 ≠ .inGuest) :
    y.1 ≠ .entering ∧ y.1 ≠ .inGuest := by
  cases h with
  | stay x => exact hx
  | kick v k => exact hx
  | register k | start k | loopTop k keep | park k | wake k | relock k => exact ⟨nofun, nofun⟩
  | check k => cases running <;> exact ⟨nofun, nofun⟩
  | arrive k | recheck k => exact ⟨nofun, nofun⟩
  | enter k => exact absurd rfl hx.1
  | leave quit k => exact absurd rfl hx.2

/-- Without a request, no vCPU goes to sleep in its checkpoint. -/
theorem not_asleep (h : VcpuMove running false x y) (hx : x.1 ≠ .asleep) : y.1 ≠ .asleep := by
  cases h with
  | stay x => exact hx
  | kick v k => exact hx
  | register k | start k | loopTop k keep | park k | wake k | relock k => exact nofun
  | check k => cases running <;> exact nofun
  | arrive k | recheck k => exact nofun
  | enter k => cases k <;> exact nofun
  | leave quit k => cases quit <;> exact nofun

end VcpuMove

namespace Pausing

variable {n m : ℕ} {s s' : Pausing n m} {a : PauseAct n m}
variable {p : VcpuAt → Bool} {x : VcpuAt}

/-- A change of one vCPU's place, as a move of every vCPU. -/
theorem setVcpu_move {running requested : Bool} {i : Fin n} {v : VcpuAt}
    (h : VcpuMove running requested (s.vcpu i, s.kicked i) (v, s.kicked i)) (j : Fin n) :
    VcpuMove running requested (s.vcpu j, s.kicked j) ((s.setVcpu i v).vcpu j, s.kicked j) := by
  by_cases hj : j = i
  · subst hj
    simpa [setVcpu] using h
  · simpa [setVcpu, hj] using VcpuMove.stay (s.vcpu j, s.kicked j)

theorem notifyAll_move (running requested : Bool) (s : Pausing n m) (j : Fin n) :
    VcpuMove running requested (s.vcpu j, s.kicked j) (s.notifyAll.vcpu j, s.kicked j) := by
  show VcpuMove running requested _ (if s.vcpu j = .asleep then .woken else s.vcpu j, s.kicked j)
  split
  · next h =>
    rw [h]
    exact .wake _
  · exact .stay _

theorem kick_move (running requested : Bool) (s : Pausing n m) (i j : Fin n) :
    VcpuMove running requested (s.vcpu j, s.kicked j) (s.vcpu j, (s.kick i).kicked j) := by
  by_cases hj : j = i
  · subst hj
    simpa [kick] using VcpuMove.kick (s.vcpu j) (s.kicked j)
  · simpa [kick, hj] using VcpuMove.stay (s.vcpu j, s.kicked j)

/-- **Every action moves every vCPU by a move.** -/
theorem effect_move (h : a.Enabled s) (j : Fin n) :
    VcpuMove s.running s.requested (s.vcpu j, s.kicked j)
      ((a.effect s).vcpu j, (a.effect s).kicked j) := by
  cases a with
  | register i => exact setVcpu_move (h.1 ▸ .register _) j
  | markStarted i => exact setVcpu_move ((show s.vcpu i = _ from h) ▸ .start _) j
  | loopTop i keep =>
    have htop : s.vcpu i = .top := h
    by_cases hj : j = i
    · subst hj
      simpa [PauseAct.effect, setVcpu, htop] using VcpuMove.loopTop (s.kicked j) keep
    · simpa [PauseAct.effect, setVcpu, hj] using VcpuMove.stay (s.vcpu j, s.kicked j)
  | checkRunning i => exact setVcpu_move ((show s.vcpu i = _ from h) ▸ .check _) j
  | arrive i => exact setVcpu_move ((show s.vcpu i = _ from h) ▸ .arrive _) j
  | park i =>
    by_cases hj : j = i
    · subst hj
      simpa [PauseAct.effect, setVcpu, notifyAll, h.1] using VcpuMove.park (s.kicked j)
    · have hmove := notifyAll_move s.running s.requested s j
      rwa [← Function.update_of_ne hj VcpuAt.counted s.notifyAll.vcpu] at hmove
  | recheck i => exact setVcpu_move ((show s.vcpu i = _ from h) ▸ .recheck _) j
  | wakeUp i => exact setVcpu_move ((show s.vcpu i = _ from h) ▸ .wake _) j
  | relock i => exact setVcpu_move (h.1 ▸ .relock _) j
  | enter i => exact setVcpu_move ((show s.vcpu i = _ from h) ▸ .enter _) j
  | leave i quit => exact setVcpu_move ((show s.vcpu i = _ from h) ▸ .leave quit _) j
  | notify => exact notifyAll_move s.running s.requested s j
  | stopNotify t => exact notifyAll_move s.running s.requested s j
  | kickNext =>
    obtain ⟨i, left, hp⟩ := h
    simp only [PauseAct.effect, hp]
    exact kick_move s.running s.requested s i j
  | stopKickNext t =>
    obtain ⟨i, left, hp⟩ := h
    simp only [PauseAct.effect, hp]
    exact kick_move s.running s.requested s i j
  | readRunning | readStarted expired | pauserStart | request | lockTable | unlockTable | lockWait
    | wakePauser | relockWait | decide
  | resume | release | stop t | stopLockTable t | stopUnlockTable t | stopRelease t => exact .stay _

/-! ### The counters -/

/-- How many vCPUs are at places that satisfy `p`. -/
def count (p : VcpuAt → Bool) (vcpu : Fin n → VcpuAt) : ℕ :=
  (Finset.univ.filter fun i => p (vcpu i) = true).card

theorem count_congr {v v' : Fin n → VcpuAt} (h : ∀ i, p (v' i) = p (v i)) :
    count p v' = count p v := by
  unfold count
  simp only [h]

theorem count_update_same {v : Fin n → VcpuAt} {i : Fin n} (h : p x = p (v i)) :
    count p (Function.update v i x) = count p v := by
  refine count_congr fun j => ?_
  by_cases hj : j = i
  · subst hj
    rw [Function.update_self, h]
  · rw [Function.update_of_ne hj]

theorem count_update_add {v : Fin n → VcpuAt} {i : Fin n} (h : p (v i) = false) (hx : p x = true) :
    count p (Function.update v i x) = count p v + 1 := by
  have hfilter : (Finset.univ.filter fun j => p (Function.update v i x j) = true) =
      insert i (Finset.univ.filter fun j => p (v j) = true) := by
    ext j
    by_cases hj : j = i
    · subst hj
      simp [hx]
    · simp [hj]
  rw [count, hfilter, Finset.card_insert_of_notMem (by simp [h])]
  rfl

theorem count_update_sub {v : Fin n → VcpuAt} {i : Fin n} (h : p (v i) = true) (hx : p x = false) :
    count p (Function.update v i x) = count p v - 1 := by
  have hfilter : (Finset.univ.filter fun j => p (Function.update v i x j) = true) =
      (Finset.univ.filter fun j => p (v j) = true).erase i := by
    ext j
    by_cases hj : j = i
    · subst hj
      simp [hx]
    · simp [hj]
  rw [count, hfilter, Finset.card_erase_of_mem (by simp [h])]
  rfl

/-- The counters count the vCPUs, the pausing one included among those started. -/
structure Counts (s : Pausing n m) : Prop where
  parked : s.parked = count VcpuAt.isParked s.vcpu
  started : s.started = count VcpuAt.isStarted s.vcpu + if s.pauser = .unstarted then 0 else 1

/-- A vCPU moves between places that are counted alike. -/
theorem Counts.setVcpu (h : Counts s) {i : Fin n} {v : VcpuAt}
    (hparked : v.isParked = (s.vcpu i).isParked) (hstarted : v.isStarted = (s.vcpu i).isStarted) :
    Counts (s.setVcpu i v) where
  parked := h.parked.trans (count_update_same hparked).symm
  started := h.started.trans (by rw [← count_update_same hstarted]; rfl)

theorem Counts.notifyAll (h : Counts s) : Counts s.notifyAll where
  parked := by
    refine h.parked.trans (count_congr fun i => ?_).symm
    show (if s.vcpu i = .asleep then VcpuAt.woken else s.vcpu i).isParked = _
    split
    · next hi => rw [hi]; rfl
    · rfl
  started := by
    have hcount : count VcpuAt.isStarted s.notifyAll.vcpu = count VcpuAt.isStarted s.vcpu := by
      refine count_congr fun i => ?_
      show (if s.vcpu i = .asleep then VcpuAt.woken else s.vcpu i).isStarted = _
      split
      · next hi => rw [hi]; rfl
      · rfl
    have hpauser : (s.notifyAll.pauser = .unstarted) ↔ s.pauser = .unstarted := by
      show (if s.pauser = .asleep then .woken else s.pauser) = _ ↔ _
      split
      · next hp => simp [hp]
      · rfl
    rw [hcount]
    simp only [hpauser]
    exact h.started

/-- Only the pausing thread, once started, moves. -/
theorem Counts.congr (h : Counts s)
    (hparked : s'.parked = s.parked) (hstarted : s'.started = s.started)
    (hvcpu : s'.vcpu = s.vcpu) (hold : s.pauser ≠ .unstarted) (hnew : s'.pauser ≠ .unstarted) :
    Counts s' where
  parked := by rw [hparked, hvcpu, h.parked]
  started := by rw [hstarted, hvcpu, if_neg hnew, h.started, if_neg hold]

theorem counts_effect (hen : a.Enabled s) (h : Counts s) : Counts (a.effect s) := by
  cases a with
  | register i => exact h.setVcpu (by rw [hen.1]; rfl) (by rw [hen.1]; rfl)
  | markStarted i =>
    have hi : s.vcpu i = .registered := hen
    refine ⟨h.parked.trans (count_update_same (by rw [hi]; rfl)).symm, ?_⟩
    show s.started + 1 = count VcpuAt.isStarted (Function.update s.vcpu i .top) + _
    rw [count_update_add (by rw [hi]; rfl) rfl, h.started]
    exact Nat.add_right_comm _ _ _
  | loopTop i keep =>
    have hi : s.vcpu i = .top := hen
    have hset := h.setVcpu (i := i) (v := .checking) (by rw [hi]; rfl) (by rw [hi]; rfl)
    exact ⟨hset.parked, hset.started⟩
  | checkRunning i =>
    have hi : s.vcpu i = .checking := hen
    cases hr : s.running <;> simp only [PauseAct.effect, hr] <;>
      exact h.setVcpu (by rw [hi]; rfl) (by rw [hi]; rfl)
  | arrive i =>
    have hi : s.vcpu i = .arriving := hen
    cases hr : s.requested <;> simp only [PauseAct.effect, hr] <;>
      exact h.setVcpu (by rw [hi]; rfl) (by rw [hi]; rfl)
  | park i =>
    have hseen : s.notifyAll.vcpu i = .seen := by
      show (if s.vcpu i = .asleep then VcpuAt.woken else s.vcpu i) = _
      rw [hen.1]
      rfl
    have hall := h.notifyAll
    refine ⟨?_, ?_⟩
    · show s.parked + 1 = count VcpuAt.isParked (Function.update s.notifyAll.vcpu i .counted)
      rw [count_update_add (by rw [hseen]; rfl) rfl, ← hall.parked]
      rfl
    · refine hall.started.trans ?_
      show _ = count VcpuAt.isStarted (Function.update s.notifyAll.vcpu i .counted) + _
      rw [count_update_same (by rw [hseen]; rfl)]
      rfl
  | recheck i =>
    have hi : s.vcpu i = .counted := hen
    cases hr : s.requested with
    | true =>
      have hset := h.setVcpu (i := i) (v := .asleep) (by rw [hi]; rfl) (by rw [hi]; rfl)
      simp only [PauseAct.effect, hr]
      exact ⟨hset.parked, hset.started⟩
    | false =>
      simp only [PauseAct.effect, hr]
      refine ⟨?_, ?_⟩
      · show s.parked - 1 = count VcpuAt.isParked (Function.update s.vcpu i .entering)
        rw [count_update_sub (by rw [hi]; rfl) rfl, ← h.parked]
      · refine h.started.trans ?_
        show _ = count VcpuAt.isStarted (Function.update s.vcpu i .entering) + _
        rw [count_update_same (by rw [hi]; rfl)]
        rfl
  | wakeUp i =>
    have hi : s.vcpu i = .asleep := hen
    exact h.setVcpu (by rw [hi]; rfl) (by rw [hi]; rfl)
  | relock i =>
    have hset := h.setVcpu (i := i) (v := .counted) (by rw [hen.1]; rfl) (by rw [hen.1]; rfl)
    exact ⟨hset.parked, hset.started⟩
  | enter i =>
    have hi : s.vcpu i = .entering := hen
    cases hk : s.kicked i <;> simp only [PauseAct.effect, hk] <;>
      exact h.setVcpu (by rw [hi]; rfl) (by rw [hi]; rfl)
  | leave i quit =>
    have hi : s.vcpu i = .inGuest := hen
    cases quit <;> exact h.setVcpu (by rw [hi]; rfl) (by rw [hi]; rfl)
  | pauserStart =>
    have hp : s.pauser = .unstarted := hen
    refine ⟨h.parked, ?_⟩
    show s.started + 1 = count VcpuAt.isStarted s.vcpu + _
    rw [h.started, if_pos hp]
    rfl
  | kickNext =>
    obtain ⟨i, left, hp⟩ := hen
    simp only [PauseAct.effect, hp]
    exact h.congr rfl rfl rfl (by rw [hp]; nofun) nofun
  | stopKickNext t =>
    obtain ⟨i, left, hp⟩ := hen
    simp only [PauseAct.effect, hp]
    exact ⟨h.parked, h.started⟩
  | notify =>
    refine h.notifyAll.congr rfl rfl rfl ?_ nofun
    show (if s.pauser = .asleep then .woken else s.pauser) ≠ _
    rw [hen.1]
    nofun
  | stopNotify t => exact ⟨h.notifyAll.parked, h.notifyAll.started⟩
  | readRunning =>
    refine h.congr rfl rfl rfl (by rw [show s.pauser = _ from hen]; nofun) ?_
    show (if s.running then PauserAt.counting else .deciding) ≠ _
    split <;> nofun
  | readStarted expired =>
    refine h.congr rfl rfl rfl (by rw [show s.pauser = _ from hen]; nofun) ?_
    show (if _ then if expired then PauserAt.releasing else .asleep else .deciding) ≠ _
    split
    · split <;> nofun
    · nofun
  | decide =>
    refine h.congr rfl rfl rfl (by rw [show s.pauser = _ from hen]; nofun) ?_
    show (if s.running then PauserAt.paused else .releasing) ≠ _
    split <;> nofun
  | request | unlockTable | wakePauser | resume | release =>
    exact h.congr rfl rfl rfl (by rw [show s.pauser = _ from hen]; nofun) nofun
  | lockTable | lockWait | relockWait =>
    exact h.congr rfl rfl rfl (by rw [show s.pauser = _ from hen.1]; nofun) nofun
  | stop t | stopLockTable t | stopUnlockTable t | stopRelease t => exact ⟨h.parked, h.started⟩

/-! ### The flags -/

theorem running_effect (h : s.running = false) : (a.effect s).running = false := by
  cases a with
  | stop t => rfl
  | kickNext => simp only [PauseAct.effect]; split <;> exact h
  | stopKickNext t => simp only [PauseAct.effect]; split <;> exact h
  | _ => exact h

theorem kicksDone_effect (h : s.kicksDone = true) : (a.effect s).kicksDone = true := by
  cases a with
  | stopUnlockTable t => rfl
  | kickNext => simp only [PauseAct.effect]; split <;> exact h
  | stopKickNext t => simp only [PauseAct.effect]; split <;> exact h
  | _ => exact h

theorem requested_effect (h : s.requested = false) (ha : a ≠ .request) :
    (a.effect s).requested = false := by
  cases a with
  | request => exact absurd rfl ha
  | release => rfl
  | stopRelease t => rfl
  | kickNext => simp only [PauseAct.effect]; split <;> exact h
  | stopKickNext t => simp only [PauseAct.effect]; split <;> exact h
  | _ => exact h

theorem stands_effect (h : s.requested = true) (ha : a ≠ .release)
    (hstop : ∀ t, a ≠ .stopRelease t) : (a.effect s).requested = true := by
  cases a with
  | request => rfl
  | release => exact absurd rfl ha
  | stopRelease t => exact absurd rfl (hstop t)
  | kickNext => simp only [PauseAct.effect]; split <;> exact h
  | stopKickNext t => simp only [PauseAct.effect]; split <;> exact h
  | _ => exact h

/-! ### The pausing thread -/

/-- Where the pausing thread can come from, apart from the actions of others. -/
inductive PauserMove (s : Pausing n m) : PauseAct n m → PauserAt n → PauserAt n → Prop
  | other {a : PauseAct n m} (ha : a ≠ .request ∧ a ≠ .release ∧ a ≠ .notify) :
      PauserMove s a s.pauser s.pauser
  | wake {a : PauseAct n m} (ha : a ≠ .request ∧ a ≠ .release ∧ a ≠ .notify) :
      PauserMove s a .asleep .woken
  | start : PauserMove s .pauserStart .unstarted .idle
  | request : PauserMove s .request .idle .requested
  | lockTable : PauserMove s .lockTable .requested (.kicking s.table)
  | kickNext {i : Fin n} {left : List (Fin n)} :
      PauserMove s .kickNext (.kicking (i :: left)) (.kicking left)
  | unlockTable : PauserMove s .unlockTable (.kicking []) .locking
  | lockWait : PauserMove s .lockWait .locking .reading
  | relockWait : PauserMove s .relockWait .woken .reading
  | readRunning : PauserMove s .readRunning .reading (if s.running then .counting else .deciding)
  | readStarted (expired : Bool) : PauserMove s (.readStarted expired) .counting
      (if s.parked < s.started - 1 then if expired then .releasing else .asleep else .deciding)
  | decide : PauserMove s .decide .deciding (if s.running then .paused else .releasing)
  | resume : PauserMove s .resume .paused .releasing
  | release : PauserMove s .release .releasing .notifying
  | notify : PauserMove s .notify .notifying .idle

theorem notifyAll_pauserMove (ha : a ≠ .request ∧ a ≠ .release ∧ a ≠ .notify) :
    PauserMove s a s.pauser s.notifyAll.pauser := by
  show PauserMove s a s.pauser (if s.pauser = .asleep then .woken else s.pauser)
  split
  · next hp =>
    rw [hp]
    exact .wake ha
  · exact .other ha

theorem effect_pauserMove (hen : a.Enabled s) : PauserMove s a s.pauser (a.effect s).pauser := by
  cases a with
  | park i => exact notifyAll_pauserMove ⟨nofun, nofun, nofun⟩
  | stopNotify t => exact notifyAll_pauserMove ⟨nofun, nofun, nofun⟩
  | pauserStart => exact (show s.pauser = _ from hen) ▸ .start
  | request => exact (show s.pauser = _ from hen) ▸ .request
  | lockTable => exact (show s.pauser = _ from hen.1) ▸ .lockTable
  | kickNext =>
    obtain ⟨i, left, hp⟩ := hen
    simp only [PauseAct.effect, hp]
    exact .kickNext
  | unlockTable => exact (show s.pauser = _ from hen) ▸ .unlockTable
  | lockWait => exact (show s.pauser = _ from hen.1) ▸ .lockWait
  | readRunning => exact (show s.pauser = _ from hen) ▸ .readRunning
  | readStarted expired => exact (show s.pauser = _ from hen) ▸ .readStarted expired
  | wakePauser => exact (show s.pauser = _ from hen) ▸ .wake ⟨nofun, nofun, nofun⟩
  | relockWait => exact (show s.pauser = _ from hen.1) ▸ .relockWait
  | decide => exact (show s.pauser = _ from hen) ▸ .decide
  | resume => exact (show s.pauser = _ from hen) ▸ .resume
  | release => exact (show s.pauser = _ from hen) ▸ .release
  | notify => exact (show s.pauser = _ from hen.1) ▸ .notify
  | stopKickNext t =>
    obtain ⟨i, left, hp⟩ := hen
    simp only [PauseAct.effect, hp]
    exact .other ⟨nofun, nofun, nofun⟩
  | _ => exact .other ⟨nofun, nofun, nofun⟩

end Pausing
