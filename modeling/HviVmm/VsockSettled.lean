/-
Between calls nothing is left to settle.

`settle` ends what is finished of one connection.  A connection is `Settled` when
it would do nothing to it, and in particular does not drop it.  Every call settles
the connections it may have unsettled, so all of them are settled between calls.

* `settle_quiet` — settling once is enough;
* `fillRx_quiet`, `handlers_quiet`, … — what a call leaves behind;
* `run_quiet` — in every run, no finished connection is kept.
-/
import HviVmm.VsockCalls
import HviVmm.VsockLedger

open VirtioVsock

namespace Conn

/-- Nothing is left to settle. -/
structure Settled (c : Conn) : Prop where
  write : c.writeDue = false
  tell : c.tellDue = true → c.hostGone = false ∧ c.pollDue = false ∧ c.hostFlags &&& ~~~c.told = 0
  unfinished : c.finished = false

theorem and_not_or_self (told flags : UInt32) : flags &&& ~~~(told ||| flags) = 0 := by
  refine UInt32.eq_of_toBitVec_eq (BitVec.eq_of_getLsbD_eq fun i hi => ?_)
  simp
  grind

/-- A host that still may send is something to announce to a guest that has heard
nothing. -/
theorem announced_of_pollDue {c : Conn} (h : c.pollDue = true) (up : Bool) :
    ({ c with hostHungUp := up } : Conn).hostFlags &&& ~~~c.told ≠ 0 := by
  simp only [pollDue, Bool.and_eq_true, beq_iff_eq, Bool.not_eq_true'] at h
  cases up <;> simp [hostFlags, h.1.1, h.2, shutdownSend, shutdownBoth, shutdownRcv]

theorem shutHostWrite_writeDue (c : Conn) : c.shutHostWrite.writeDue = false := by
  unfold shutHostWrite
  split
  · simp [writeDue]
  · next h => exact Bool.not_eq_true _ ▸ h

theorem tellGuest_fields (c : Conn) (p : UInt32) : ∃ up hangups told reset,
    (c.tellGuest p).1 = { c with
      hostHungUp := up, stream := { c.stream with hangups }, told, resetSent := reset } ∧
      c.told ||| told = told := by
  have hpoll : ∃ up hangups, c.pollHost =
      { c with hostHungUp := up, stream := { c.stream with hangups } } := by
    unfold pollHost
    split
    · exact ⟨_, _, rfl⟩
    · exact ⟨_, _, rfl⟩
  obtain ⟨up, hangups, hpoll⟩ := hpoll
  unfold tellGuest
  split
  · split
    · exact ⟨_, _, _, true, rfl, UInt32.or_self⟩
    · unfold announce
      rw [hpoll]
      split
      · refine ⟨_, _, _, _, rfl, ?_⟩
        rw [← UInt32.or_assoc, UInt32.or_self]
      · exact ⟨_, _, _, _, rfl, UInt32.or_self⟩
  · exact ⟨_, _, _, _, rfl, UInt32.or_self⟩

/-- Telling the guest once is enough, and leaves the write half alone. -/
theorem tellGuest_told (c : Conn) (p : UInt32) :
    (c.tellGuest p).1.writeDue = c.writeDue ∧
      ((c.tellGuest p).1.tellDue = true → (c.tellGuest p).1.hostGone = false ∧
        (c.tellGuest p).1.pollDue = false ∧
        (c.tellGuest p).1.hostFlags &&& ~~~(c.tellGuest p).1.told = 0) := by
  unfold tellGuest
  split
  · next hdue =>
    split
    · refine ⟨rfl, fun h => ?_⟩
      simp [tellDue, guestOpen] at h
    · next hgone =>
      rw [Bool.not_eq_true] at hgone
      have hpoll : c.pollHost.writeDue = c.writeDue ∧ c.pollHost.hostGone = false ∧
          (c.pollHost.pollDue = true → c.pollHost.hostFlags &&& ~~~c.pollHost.told ≠ 0) := by
        unfold pollHost
        split
        · next h => exact ⟨rfl, hgone, fun _ => announced_of_pollDue h _⟩
        · next h => exact ⟨rfl, hgone, fun h' => absurd h' h⟩
      generalize c.pollHost = c₁ at hpoll ⊢
      obtain ⟨hwrite, hgone₁, hnew⟩ := hpoll
      unfold announce
      split
      · next hflags =>
        refine ⟨hwrite, fun _ => ⟨hgone₁, ?_, and_not_or_self _ _⟩⟩
        -- the flags announced are not zero, so the mask is not zero any more
        have htold : c₁.told ||| c₁.hostFlags ≠ 0 := by
          intro h0
          rw [UInt32.or_eq_zero_iff] at h0
          simp [h0.2] at hflags
        simp [pollDue, htold]
      · next hflags =>
        have hflags' : c₁.hostFlags &&& ~~~c₁.told = 0 := by simpa using hflags
        refine ⟨hwrite, fun _ => ⟨hgone₁, ?_, hflags'⟩⟩
        rw [← Bool.not_eq_true]
        exact fun h => hnew h hflags'
  · next hdue => exact ⟨rfl, fun h => absurd h hdue⟩

namespace Settled

variable {c : Conn}

theorem new (stream : HostStream) : Settled { stream } :=
  ⟨rfl, fun h => by simp [tellDue] at h, by simp [finished, toGuestDone]⟩

theorem credit (h : c.Settled) (hdr : Hdr) : (c.takeCredit hdr).Settled := by
  obtain ⟨buf, fwd, heq⟩ := c.takeCredit_eq hdr
  rw [heq]
  exact ⟨h.write, h.tell, h.unfinished⟩

theorem queue (h : c.Settled) (data : List UInt8) :
    Settled { c with backlog := c.backlog ++ data } := by
  refine ⟨h.write, fun hdue => h.tell ?_, h.unfinished⟩
  simp only [tellDue, Bool.and_eq_true, List.isEmpty_iff, List.append_eq_nil_iff] at hdue ⊢
  exact ⟨⟨hdue.1.1, hdue.1.2.1⟩, hdue.2⟩

end Settled

end Conn

namespace VirtioVsock

/-! ### All connections -/

/-- Every connection is settled. -/
def Quiet (s : VirtioVsock) : Prop := ∀ p c, s.conn p = some c → c.Settled

/-- Every connection but the one on `q` is settled. -/
def QuietBut (q : UInt32) (s : VirtioVsock) : Prop :=
  ∀ p c, p ≠ q → s.conn p = some c → c.Settled

section Quiet

variable {s s' : VirtioVsock} {p : UInt32} {c : Conn} {pkts : List Packet} {evs : List Event}

theorem Quiet.but (h : Quiet s) (q : UInt32) : QuietBut q s := fun p c _ hc => h p c hc

theorem QuietBut.commit (h : QuietBut p s) (c : Conn) (pkts : List Packet) (evs : List Event) :
    QuietBut p (s.commit p c pkts evs) := EachBut.commit h c pkts evs

theorem QuietBut.quiet (h : QuietBut p s) (hp : ∀ c, s.conn p = some c → c.Settled) : Quiet s :=
  EachBut.each h hp

theorem QuietBut.commit_settled (h : QuietBut p s) (hc : c.Settled) :
    Quiet (s.commit p c pkts evs) := EachBut.commit_each h hc

theorem QuietBut.remove (h : QuietBut p s) : Quiet (s.remove p pkts evs) := EachBut.remove h

/-- **Settling once is enough.** -/
theorem settle_quiet (h : QuietBut p s) : Quiet (s.settle p) := by
  unfold settle
  cases hc : s.conn p with
  | none => exact h.quiet fun c hc' => by rw [hc] at hc'; cases hc'
  | some c =>
    obtain ⟨hwrite, htell⟩ := c.shutHostWrite.tellGuest_told p
    rw [c.shutHostWrite_writeDue] at hwrite
    simp only
    generalize c.shutHostWrite.tellGuest p = told at hwrite htell ⊢
    split
    · exact (h.commit _ _ _).remove
    · next hfin => exact h.commit_settled ⟨hwrite, htell, by simpa using hfin⟩

/-! ### Filling -/

theorem refill_quiet (hr : s.refill = some s') (h : Quiet s) : Quiet s' := by
  unfold refill at hr
  split at hr
  · obtain ⟨p, c, -, -, rfl⟩ := frameBacklog_spec hr
    exact settle_quiet ((show QuietBut p { s with nextTurn := p + 1 } from h.but p).commit _ _ _)
  · cases hr
    exact h

theorem deliver_keeps (s : VirtioVsock) :
    s.deliver.2.conns = s.conns ∧ s.deliver.2.history = s.history := by
  unfold deliver
  split
  · exact ⟨rfl, rfl⟩
  · split
    · exact ⟨rfl, rfl⟩
    · simp only
      split
      · exact ⟨rfl, rfl⟩
      · split
        · exact ⟨rfl, rfl⟩
        · unfold place
          simp only
          split <;> exact ⟨rfl, rfl⟩

theorem fillRx_quiet (h : Quiet s) : Quiet s.fillRx := by
  refine fillRx_inv (fun hr h => refill_quiet hr h) (fun {s} h => ?_) h
  intro p c hc
  rw [conn, (deliver_keeps s).1] at hc
  exact h p c hc

theorem settle_fill_quiet (h : QuietBut p s) (c : Conn) (pkts : List Packet) (evs : List Event) :
    Quiet ((s.commit p c pkts evs).settle p).fillRx :=
  fillRx_quiet (settle_quiet (h.commit c pkts evs))

/-! ### Calls -/

theorem connect_quiet (h : Quiet s) (p : UInt32) : Quiet (s.connect p) := by
  unfold connect
  cases hc : s.conn p with
  | none => exact h
  | some c =>
    have hset := h p c hc
    exact fillRx_quiet ((h.but p).commit_settled ⟨hset.write, hset.tell, hset.unfinished⟩)

theorem hostData_quiet (h : Quiet s) (p : UInt32) (data : List UInt8) :
    Quiet (s.hostData p data).2 := by
  unfold hostData
  cases hc : s.conn p with
  | none => exact h
  | some c =>
    have hset := h p c hc
    simp only
    split
    · split
      · exact (h.but p).commit_settled hset
      · exact (h.but p).commit_settled ⟨hset.write, hset.tell, hset.unfinished⟩
    · have hqueued : Quiet (s.commit p { c with backlog := c.backlog ++ data } []
          [.passed data, .queued data]) := (h.but p).commit_settled (hset.queue data)
      have hfill := fillRx_quiet hqueued
      generalize VirtioVsock.fillRx _ = s₁ at hfill ⊢
      cases hc₁ : s₁.conn p with
      | none => exact hfill
      | some c₁ =>
        have hset₁ := hfill p c₁ hc₁
        simp only
        split
        · exact hfill
        · exact (hfill.but p).commit_settled ⟨hset₁.write, hset₁.tell, hset₁.unfinished⟩

theorem hostEof_quiet (h : Quiet s) (p : UInt32) : Quiet (s.hostEof p).2 := by
  unfold hostEof
  cases s.conn p with
  | none => exact h
  | some c => exact settle_fill_quiet (h.but p) _ _ _

theorem hostHungUp_quiet (h : Quiet s) (p : UInt32) : Quiet (s.hostHungUp p) := by
  unfold hostHungUp
  cases s.conn p with
  | none => exact h
  | some c =>
    simp only
    split
    · exact settle_fill_quiet (h.but p) _ _ _
    · exact h

/-- A host that goes is settled, unless it had gone before. -/
theorem hostGone_quiet (h : QuietBut p s)
    (hp : ∀ c, s.conn p = some c → c.hostGone = true → c.Settled) : Quiet (s.hostGone p) := by
  unfold hostGone
  cases hc : s.conn p with
  | none => exact h.quiet fun c hc' => by rw [hc] at hc'; cases hc'
  | some c =>
    simp only
    split
    · next hg =>
      refine h.quiet fun d hd => ?_
      rw [hc, Option.some.injEq] at hd
      exact hd ▸ hp c hc hg
    · exact settle_fill_quiet h _ _ _

/-- A flush settles; the host that a failed send finds gone was not gone before,
since nothing waits for a host that has gone. -/
theorem flushToHost_quiet (h : QuietBut p s)
    (hgone : ∀ c, s.conn p = some c → c.hostGone = true → c.toHost = []) :
    Quiet (s.flushToHost p).2 := by
  unfold flushToHost
  cases hc : s.conn p with
  | none => exact h.quiet fun c hc' => by rw [hc] at hc'; cases hc'
  | some c =>
    obtain ⟨rest, hto, hfail⟩ := send_spec c.stream.writes c.toHost
    simp only
    generalize Conn.send c.stream.writes c.toHost = r at hto hfail ⊢
    split
    · next hf =>
      refine hostGone_quiet (h.commit _ _ _) fun d hd hg => ?_
      rw [conn_commit_self, Option.some.injEq] at hd
      subst hd
      have hnil := hgone c hc hg
      rw [hto, List.append_eq_nil_iff] at hnil
      exact absurd hnil.2 (hfail hf)
    · exact settle_fill_quiet h _ _ _

/-! ### Guest packets -/

theorem takeCredit_quiet (h : Quiet s) (hdr : Hdr) : Quiet (s.takeCredit hdr) := by
  unfold takeCredit
  cases hc : s.conn hdr.dstPort with
  | none => exact h
  | some c => exact (h.but _).commit_settled ((h _ c hc).credit hdr)

theorem accept_quiet (h : Quiet s) (p : UInt32) : Quiet (s.accept p) := by
  unfold accept
  cases hc : s.conn p with
  | none => exact h
  | some c =>
    have hset := h p c hc
    simp only
    split
    · exact (h.but p).commit_settled ⟨hset.write, hset.tell, hset.unfinished⟩
    · exact h

theorem relay_quiet (h : Quiet s) (p : UInt32) (body : List UInt8) : Quiet (s.relay p body) := by
  unfold relay
  cases hc : s.conn p with
  | none => exact h
  | some c =>
    have hset := h p c hc
    simp only
    split
    · split
      · exact fillRx_quiet ((h.but p).commit_settled ⟨hset.write, hset.tell, hset.unfinished⟩)
      · next hg =>
        split
        · exact fillRx_quiet (h.but p).remove
        · refine fillRx_quiet (flushToHost_quiet ((h.but p).commit _ _ _) fun d hd hgd => ?_)
          rw [conn_commit_self, Option.some.injEq] at hd
          subst hd
          exact absurd hgd hg
    · exact h

theorem guestShut_quiet (h : Quiet s) (hdr : Hdr) : Quiet (s.guestShut hdr) := by
  unfold guestShut
  cases hc : s.conn hdr.dstPort with
  | none => exact h
  | some c =>
    simp only
    split
    · exact h
    · exact settle_quiet ((h.but _).commit _ _ _)

theorem answerCredit_quiet (h : Quiet s) (p : UInt32) : Quiet (s.answerCredit p) := by
  unfold answerCredit
  cases hc : s.conn p with
  | none => exact h
  | some c =>
    simp only
    split
    · exact (h.but p).commit_settled (h p c hc)
    · exact h

theorem handlers_quiet : HandlerInv Quiet where
  conns h heq p c hc := h p c (by rwa [conn, ← heq])
  none heq p c hc := by
    rw [conn, heq] at hc
    cases hc
  fill := fillRx_quiet
  credit hdr h := takeCredit_quiet h hdr
  accept p h := accept_quiet h p
  relay p body h := relay_quiet h p body
  shut hdr h := guestShut_quiet h hdr
  answer p h := answerCredit_quiet h p

/-! ### Runs -/

/-- Nothing waits for a host that has gone. -/
def GoneEmpty (s : VirtioVsock) : Prop :=
  ∀ p c, s.conn p = some c → c.hostGone = true → c.toHost = []

theorem exec_quiet (h : Quiet s) (hgone : GoneEmpty s) (op : Op) : Quiet (s.exec op) := by
  cases op with
  | addConn stream => exact Each.addConn h stream (.new stream)
  | connect p => exact connect_quiet h p
  | hostData p data => exact hostData_quiet h p data
  | hostEof p => exact hostEof_quiet h p
  | hostHungUp p => exact hostHungUp_quiet h p
  | hostGone p => exact hostGone_quiet (h.but p) fun c hc _ => h p c hc
  | flushToHost p => exact flushToHost_quiet (h.but p) (hgone p)
  | handlePkt pkt => exact handlers_quiet.handlePkt h pkt
  | mmioWrite w => exact handlers_quiet.mmioWrite h w
  | dropConns => exact fun p c hc => (nomatch hc)

theorem step_quiet (h : Quiet s) (hgone : GoneEmpty s) (call : Call) : Quiet (s.step call) := by
  have hram : Quiet { s with mem := { s.mem with bytes := call.ram } } := h
  exact exec_quiet hram hgone call.op

/-- **Between calls nothing is left to settle.** -/
theorem run_quiet (mem : GuestRam) (calls : List Call) : Quiet ((fresh mem).run calls) := by
  have hall : ∀ (calls : List Call) (s : VirtioVsock), Quiet s →
      Sessions (fun _ c h => Ledger c h) (EndedWith fun _ c h => Ledger c h) s →
      Quiet (s.run calls) := by
    intro calls
    induction calls with
    | nil => exact fun _ h _ => h
    | cons call calls ih =>
      intro s h hs
      exact ih _ (step_quiet h (fun p c hc => (hs.conns p c hc).gone) call)
        (sessionInv_ledger.steps (step_steps s call) hs)
  exact hall calls _ (fun p c hc => (nomatch hc)) (sessions_fresh mem)

end Quiet

end VirtioVsock
