/-
Closing loses no bytes and leaks no session.

* `vsock_close_loses_nothing` — a connection that `settle` removes has handed over
  every guest byte, and every host byte too unless `host_data` was called after
  `host_eof`; and no finished connection is kept.
-/
import HviVmm.VsockSettled

open VirtioVsock

/-- `host_data` is not called after `host_eof`. -/
def EofLast (h : List Event) : Prop :=
  ∀ h₁ data h₂, h = h₁ ++ .passed data :: h₂ → .eof ∉ h₁

theorem EofLast.left {h evs : List Event} (hp : EofLast (h ++ evs)) : EofLast h :=
  fun h₁ data h₂ heq => hp h₁ data (h₂ ++ evs) (by simp [heq])

/-- What a connection that has told the guest of the host's end has left. -/
structure Told (c : Conn) (h : List Event) : Prop where
  ledger : Ledger c h
  eof : c.hostEof = true → .eof ∈ h
  /-- A guest that knows the host sends nothing more has every host byte. -/
  told : EofLast h → (c.told &&& shutdownSend ≠ 0 ∨ c.resetSent = true) →
    c.hostEof = true ∧ c.backlog = []

namespace Told

variable {c c' : Conn} {h evs : List Event} {p : UInt32} {pkts : List Packet}

/-- A step that tells the guest nothing of the host's end and adds no backlog. -/
theorem still (t : Told c h) (l : Ledger c' (h ++ evs)) (heof : c'.hostEof = c.hostEof)
    (htold : c'.told &&& shutdownSend = c.told &&& shutdownSend)
    (hreset : c'.resetSent = c.resetSent) (hback : c.backlog = [] → c'.backlog = []) :
    Told c' (h ++ evs) where
  ledger := l
  eof he := List.mem_append_left _ (t.eof (heof ▸ he))
  told hlast hsaid := by
    rw [htold, hreset] at hsaid
    obtain ⟨he, hb⟩ := t.told hlast.left hsaid
    exact ⟨heof.trans he, hback hb⟩

/-- A step taken when the guest has every host byte. -/
theorem due (t : Told c h) (l : Ledger c' (h ++ evs)) (hdue : c.tellDue = true)
    (heof : c'.hostEof = c.hostEof) (hback : c'.backlog = c.backlog) : Told c' (h ++ evs) := by
  simp only [Conn.tellDue, Bool.and_eq_true, List.isEmpty_iff] at hdue
  refine ⟨l, fun he => List.mem_append_left _ (t.eof (heof ▸ he)), fun _ _ => ?_⟩
  rw [heof, hback]
  exact ⟨hdue.1.1.2, hdue.1.2⟩

theorem fillStep (t : Told c h) (hstep : FillStep p c c' pkts evs) : Told c' (h ++ evs) := by
  have l := t.ledger.fillStep hstep
  cases hstep with
  | frame => exact t.still l rfl rfl rfl fun hb => by simp [Conn.frame, hb]
  | keep | shutWrite | poll => exact t.still l rfl rfl rfl id
  | reset hdue | announce hdue => exact t.due l hdue rfl rfl

theorem or_rcv_and_send (told : UInt32) :
    (told ||| shutdownRcv) &&& shutdownSend = told &&& shutdownSend := by
  refine UInt32.eq_of_toBitVec_eq (BitVec.eq_of_getLsbD_eq fun i hi => ?_)
  have hbits : shutdownRcv.toBitVec &&& shutdownSend.toBitVec = 0 := by decide
  have hbit := congrArg (fun b => BitVec.getLsbD b i) hbits
  simp only [BitVec.getLsbD_and] at hbit
  simp only [UInt32.toBitVec_and, UInt32.toBitVec_or, BitVec.getLsbD_and, BitVec.getLsbD_or]
  rw [Bool.and_or_distrib_right, hbit]
  simp

theorem hostStep (t : Told c h) (hstep : HostStep p c c' pkts evs) : Told c' (h ++ evs) := by
  have l := t.ledger.hostStep hstep
  cases hstep with
  | offer | refuse | full | hungUp | flush | failed => exact t.still l rfl rfl rfl id
  | queue =>
    refine ⟨l, fun he => List.mem_append_left _ (t.eof he), fun hlast hsaid => ?_⟩
    -- the host has not ended, so the guest has not been told
    have heof := (t.told hlast.left hsaid).1
    exact absurd (t.eof heof) (hlast h _ _ rfl)
  | eof =>
    refine ⟨l, fun _ => by simp, fun hlast hsaid => ⟨rfl, ?_⟩⟩
    exact (t.told hlast.left hsaid).2
  | gone =>
    refine t.still l rfl ?_ rfl id
    simp only [Conn.gone]
    split
    · exact or_rcv_and_send _
    · rfl

theorem credit (t : Told c h) (hdr : Hdr) : Told (c.takeCredit hdr) (h ++ [.handled hdr]) := by
  have l := t.ledger.credit hdr
  obtain ⟨buf, fwd, heq⟩ := c.takeCredit_eq hdr
  rw [heq] at l ⊢
  exact t.still l rfl rfl rfl id

theorem arriveStep (t : Told c h) {hdr : Hdr} {body : List UInt8}
    (hstep : ArriveStep p hdr body c c' pkts evs) : Told c' (h ++ evs) := by
  have l := t.ledger.arriveStep hstep
  cases hstep with
  | ignore | accept | append | discard | answer => exact t.still l rfl rfl rfl id
  | shut =>
    have hfields : (c.guestShut hdr).hostEof = c.hostEof ∧ (c.guestShut hdr).told = c.told ∧
        (c.guestShut hdr).resetSent = c.resetSent := by
      simp only [Conn.guestShut]
      split <;> exact ⟨rfl, rfl, rfl⟩
    obtain ⟨heof, htold, hreset⟩ := hfields
    refine t.still l heof (by rw [htold]) hreset fun hb => ?_
    rw [(c.guestShut_fields hdr).2.2.2, hb]
    split <;> rfl

end Told

/-- Every connection is told about in order, and so is one that `settle` removes. -/
theorem sessionInv_told : SessionInv (fun _ c h => Told c h) (EndedWith fun _ c h => Told c h) :=
  .of_kept
    (fun _ stream => ⟨.new stream, fun h => by simp at h, fun _ h => by simp at h⟩)
    (fun hstep t => t.fillStep hstep) (fun hstep t => t.hostStep hstep) (fun hdr t => t.credit hdr)
    (fun hstep t => t.arriveStep hstep)

/-- A finished connection has handed over its backlog. -/
theorem Told.finished_backlog {c : Conn} {h : List Event} (t : Told c h) (hfin : c.finished = true)
    (hlast : EofLast h) : c.backlog = [] := by
  simp only [Conn.finished, Conn.toGuestDone, Bool.and_eq_true, Bool.or_eq_true, bne_iff_ne,
    ne_eq] at hfin
  rcases hfin.1 with (hrcv | hreset) | hsend
  · exact t.ledger.cut hrcv
  · exact (t.told hlast (.inr hreset)).2
  · exact (t.told hlast (.inl hsend)).2

/-- **Closing loses no bytes and leaks no session**: in every run, a connection that
`settle` removed had an empty `to_host`, from which every guest byte went to the
socket or was dropped by `host_gone`; its backlog was emptied by framing or because
the guest shut its receive side, and is empty unless `host_data` was called after
`host_eof`; and no connection that is done in both directions is kept. -/
theorem vsock_close_loses_nothing (mem : GuestRam) (calls : List Call) :
    (∀ p h₁ c h₂, life (((fresh mem).run calls).history p) = h₁ ++ .ended c :: h₂ →
      (c.toHost = [] ∧
        tally Event.appendedBytes h₁ = tally Event.tookBytes h₁ ++ tally Event.droppedBytes h₁ ∧
        (tally Event.droppedBytes h₁ ≠ [] → c.hostGone = true)) ∧
      (tally Event.queuedBytes h₁ =
          tally Event.framedBytes h₁ ++ tally Event.clearedBytes h₁ ++ c.backlog ∧
        (tally Event.clearedBytes h₁ ≠ [] → c.guestRcvShut = true) ∧
        (EofLast h₁ → c.backlog = []))) ∧
      ∀ p c, ((fresh mem).run calls).conn p = some c →
        ¬ (c.toGuestDone = true ∧ c.toHostDone = true) := by
  refine ⟨fun p h₁ c h₂ hlife => ?_, fun p c hc hdone => ?_⟩
  · have hmarks := (sessionInv_told.run mem calls).past p
    rw [hlife] at hmarks
    obtain ⟨hfin, t⟩ := hmarks.at c rfl
    have hto : c.toHost = [] := by
      simp only [Conn.finished, Conn.toHostDone, Bool.and_eq_true, List.isEmpty_iff] at hfin
      exact hfin.2.1
    have hacc := t.ledger.toHost
    rw [hto, List.append_nil] at hacc
    refine ⟨⟨hto, hacc, fun hd => ?_⟩, t.ledger.backlog, fun hcl => ?_, t.finished_backlog hfin⟩
    · rw [← Bool.not_eq_false]
      exact fun hg => hd (t.ledger.kept hg)
    · rw [← Bool.not_eq_false]
      exact fun hr => hcl (t.ledger.uncut hr)
  · have hfin := (run_quiet mem calls p c hc).unfinished
    rw [Conn.finished, hdone.1, hdone.2] at hfin
    cases hfin

/-- A host that ends, sends once more, and is then closed by the guest, before the
guest has set up its queues. -/
def sendsAfterEof : List Call :=
  [.addConn {}, .connect 40000, .handlePkt (agentPkt 40000 opResponse 0 64 0 []),
    .hostEof 40000, .hostData 40000 [7],
    .handlePkt (agentPkt 40000 opShutdown shutdownSend 64 0 [])].map fun op => ⟨op, fun _ => 0⟩

/-- A byte passed to `host_data` after `host_eof` is lost when the guest closes, with
the guest still receiving: the guest had been told that no byte would come. -/
theorem vsock_close_drops_late_data :
    ∃ h₁ c, life (((fresh sampleRam).run sendsAfterEof).history 40000) = h₁ ++ [.ended c] ∧
      c.guestRcvShut = false ∧ c.backlog = [7] ∧
      tally Event.queuedBytes h₁ ≠ tally Event.framedBytes h₁ ++ tally Event.clearedBytes h₁ := by
  refine ⟨(life (((fresh sampleRam).run sendsAfterEof).history 40000)).take 6,
    { stream := {}, state := .connected, backlog := [7], hostEof := true, hostWriteShut := true,
      guestSendShut := true, told := shutdownSend, peerBufAlloc := 64 }, ?_⟩
  decide +kernel
