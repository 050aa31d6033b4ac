/-
The guest's end of a connection.

What the device knows of the guest's end are four flags of the connection; the
history says where they come from: packets the guest sent for a session it had been
offered.

* `GuestSent` — the guest sent such a packet;
* `Peer` — the flags are what the guest sent;
* `Peer.fillStep`, `Peer.hostStep`, `Peer.arriveStep` — every step keeps this.
-/
import HviVmm.VsockHistory

open VirtioVsock

/-! ### The guest's end -/

/-- The guest sent a packet with a header in `P` for a session it had been offered. -/
def GuestSent (P : Hdr → Prop) (h : List Event) : Prop :=
  ∃ h₁ hdr h₂, h = h₁ ++ .handled hdr :: h₂ ∧ .offered ∈ h₁ ∧ P hdr

/-- An `OP_RST`. -/
def Resets (hdr : Hdr) : Prop := hdr.op = opRst

/-- An `OP_SHUTDOWN` or `OP_RST` that ends the direction `flag`. -/
def Shuts (flag : UInt32) (hdr : Hdr) : Prop :=
  (hdr.op = opShutdown ∨ hdr.op = opRst) ∧ Conn.shutFlags hdr &&& flag ≠ 0

section GuestSent

variable {P Q : Hdr → Prop} {h evs : List Event} {hdr : Hdr}

theorem guestSent_append (hevs : ∀ hdr, .handled hdr ∉ evs) :
    GuestSent P (h ++ evs) ↔ GuestSent P h := by
  constructor
  · rintro ⟨h₁, hdr, h₂, heq, hoff, hP⟩
    rcases List.append_eq_append_iff.mp heq with ⟨a, -, hevs'⟩ | ⟨a, rfl, ha⟩
    · exact absurd (by simp [hevs']) (hevs hdr)
    · cases a with
      | nil =>
        rw [List.nil_append] at ha
        exact absurd (ha ▸ List.mem_cons_self) (hevs hdr)
      | cons e a =>
        rw [List.cons_append, List.cons.injEq] at ha
        exact ⟨h₁, hdr, a, by rw [ha.1], hoff, hP⟩
  · rintro ⟨h₁, hdr, h₂, rfl, hoff, hP⟩
    exact ⟨h₁, hdr, h₂ ++ evs, by simp, hoff, hP⟩

theorem guestSent_handled :
    GuestSent P (h ++ [.handled hdr]) ↔ GuestSent P h ∨ (.offered ∈ h ∧ P hdr) := by
  constructor
  · rintro ⟨h₁, hdr', h₂, heq, hoff, hP⟩
    rcases List.eq_nil_or_concat h₂ with rfl | ⟨h₂, e, rfl⟩
    · have hlast := List.append_inj_left' heq rfl
      have hhdr := List.append_inj_right' heq rfl
      rw [List.cons.injEq, Event.handled.injEq] at hhdr
      exact .inr ⟨hlast ▸ hoff, hhdr.1 ▸ hP⟩
    · rw [List.concat_eq_append, ← List.cons_append, ← List.append_assoc] at heq
      exact .inl ⟨h₁, hdr', h₂, List.append_inj_left' heq rfl, hoff, hP⟩
  · rintro (⟨h₁, hdr', h₂, rfl, hoff, hP⟩ | ⟨hoff, hP⟩)
    · exact ⟨h₁, hdr', h₂ ++ [.handled hdr], by simp, hoff, hP⟩
    · exact ⟨h, hdr, [], rfl, hoff, hP⟩

theorem GuestSent.imp (hs : GuestSent P h) (hPQ : ∀ hdr, P hdr → Q hdr) : GuestSent Q h := by
  obtain ⟨h₁, hdr, h₂, heq, hoff, hP⟩ := hs
  exact ⟨h₁, hdr, h₂, heq, hoff, hPQ hdr hP⟩

theorem shuts_of_resets {flag : UInt32} (hflag : shutdownBoth &&& flag ≠ 0) (hr : Resets hdr) :
    Shuts flag hdr := by
  refine ⟨.inr hr, ?_⟩
  rw [Conn.shutFlags, if_pos (show hdr.op = opRst from hr)]
  exact hflag

end GuestSent

/-- What the history of a connection says of the guest's end. -/
structure Peer (c : Conn) (h : List Event) : Prop where
  offered : c.state ≠ .new ↔ .offered ∈ h
  reset : c.guestReset = true ↔ GuestSent Resets h
  rcv : c.guestRcvShut = true ↔ GuestSent (Shuts shutdownRcv) h
  send : c.guestSendShut = true ↔ GuestSent (Shuts shutdownSend) h

namespace Peer

variable {c c' : Conn} {h evs : List Event} {p : UInt32} {pkts : List Packet}
variable {hdr : Hdr}

theorem new (stream : HostStream) : Peer { stream } [] := by
  have hnone : ∀ P, ¬ GuestSent P [] := by
    rintro P ⟨h₁, hdr, h₂, heq, -⟩
    simp at heq
  exact ⟨by simp, by simpa using hnone _, by simpa using hnone _, by simpa using hnone _⟩

/-- A reset of the guest's shuts both directions. -/
theorem shut_of_reset (t : Peer c h) (hr : c.guestReset = true) :
    c.guestRcvShut = true ∧ c.guestSendShut = true := by
  have hs := t.reset.mp hr
  exact ⟨t.rcv.mpr (hs.imp fun _ => shuts_of_resets (by decide)),
    t.send.mpr (hs.imp fun _ => shuts_of_resets (by decide))⟩

/-- A step that is no guest packet and leaves the guest's end alone. -/
theorem still (t : Peer c h) (hevs : ∀ hdr, .handled hdr ∉ evs) (hoff : .offered ∉ evs)
    (hstate : c'.state = c.state) (hreset : c'.guestReset = c.guestReset)
    (hrcv : c'.guestRcvShut = c.guestRcvShut) (hsend : c'.guestSendShut = c.guestSendShut) :
    Peer c' (h ++ evs) where
  offered := by
    rw [hstate, t.offered, List.mem_append]
    exact ⟨.inl, fun hmem => hmem.resolve_right hoff⟩
  reset := by rw [hreset, t.reset, guestSent_append hevs]
  rcv := by rw [hrcv, t.rcv, guestSent_append hevs]
  send := by rw [hsend, t.send, guestSent_append hevs]

theorem fillStep (t : Peer c h) (hstep : FillStep p c c' pkts evs) : Peer c' (h ++ evs) := by
  cases hstep with
  | _ => exact t.still (by simp) (by simp) rfl rfl rfl rfl

theorem hostStep (t : Peer c h) (hstep : HostStep p c c' pkts evs) : Peer c' (h ++ evs) := by
  cases hstep with
  | offer =>
    have hevs : ∀ hdr, Event.handled hdr ∉ [Event.offered] := by simp
    refine ⟨by simp, ?_, ?_, ?_⟩
    · rw [guestSent_append hevs]
      exact t.reset
    · rw [guestSent_append hevs]
      exact t.rcv
    · rw [guestSent_append hevs]
      exact t.send
  | _ => exact t.still (by simp) (by simp) rfl rfl rfl rfl

/-- A guest packet that shuts nothing, or comes before the session was offered. -/
theorem handled (t : Peer c h) (hshut : hdr.op = opShutdown ∨ hdr.op = opRst → c.state = .new)
    (hevs : ∀ hdr, .handled hdr ∉ evs) (hoff : .offered ∉ evs)
    (hstate : c'.state = .new ↔ c.state = .new) (hreset : c'.guestReset = c.guestReset)
    (hrcv : c'.guestRcvShut = c.guestRcvShut) (hsend : c'.guestSendShut = c.guestSendShut) :
    Peer c' (h ++ .handled hdr :: evs) := by
  have hsplit : h ++ .handled hdr :: evs = (h ++ [.handled hdr]) ++ evs := by simp
  -- only a packet for an offered session counts
  have hsent : ∀ P : Hdr → Prop, (P hdr → hdr.op = opShutdown ∨ hdr.op = opRst) →
      (GuestSent P (h ++ .handled hdr :: evs) ↔ GuestSent P h) := by
    intro P hP
    rw [hsplit, guestSent_append hevs, guestSent_handled]
    refine ⟨fun hs => hs.resolve_right fun hnew => ?_, .inl⟩
    exact t.offered.mpr hnew.1 (hshut (hP hnew.2))
  refine ⟨?_, ?_, ?_, ?_⟩
  · rw [ne_eq, hstate, ← ne_eq, t.offered, hsplit, List.mem_append, List.mem_append]
    refine ⟨fun hmem => .inl (.inl hmem), fun hmem => ?_⟩
    exact (hmem.resolve_right hoff).resolve_right (by simp)
  · rw [hreset, t.reset, hsent _ fun hr => .inr hr]
  · rw [hrcv, t.rcv, hsent _ fun hs => hs.1]
  · rw [hsend, t.send, hsent _ fun hs => hs.1]

theorem shut (t : Peer c h) (hop : hdr.op = opShutdown ∨ hdr.op = opRst) (hstate : c.state ≠ .new) :
    Peer (c.guestShut hdr) (h ++ .handled hdr :: c.shutClears hdr) := by
  have hevs : ∀ hdr', .handled hdr' ∉ c.shutClears hdr := by
    intro hdr'
    unfold Conn.shutClears
    split <;> simp
  have hoff := t.offered.mp hstate
  have hfields : (c.guestShut hdr).state = c.state ∧
      (c.guestShut hdr).guestReset = (c.guestReset || hdr.op == opRst) ∧
      (c.guestShut hdr).guestRcvShut = (c.guestRcvShut || Conn.shutFlags hdr &&& shutdownRcv != 0) ∧
      (c.guestShut hdr).guestSendShut =
        (c.guestSendShut || Conn.shutFlags hdr &&& shutdownSend != 0) := by
    simp only [Conn.guestShut]
    split <;> exact ⟨rfl, rfl, rfl, rfl⟩
  obtain ⟨hst, hreset, hrcv, hsend⟩ := hfields
  have hsplit : h ++ .handled hdr :: c.shutClears hdr = (h ++ [.handled hdr]) ++
      c.shutClears hdr := by
    simp
  have hsent : ∀ P : Hdr → Prop, (GuestSent P (h ++ .handled hdr :: c.shutClears hdr) ↔
      GuestSent P h ∨ P hdr) := by
    intro P
    rw [hsplit, guestSent_append hevs, guestSent_handled]
    simp [hoff]
  refine ⟨?_, ?_, ?_, ?_⟩
  · rw [hst]
    exact ⟨fun _ => List.mem_append_left _ hoff, fun _ => hstate⟩
  · rw [hreset, hsent, Bool.or_eq_true, t.reset, beq_iff_eq]
    exact Iff.rfl
  · rw [hrcv, hsent, Bool.or_eq_true, t.rcv, bne_iff_ne]
    exact or_congr_right ⟨fun hs => ⟨hop, hs⟩, fun hs => hs.2⟩
  · rw [hsend, hsent, Bool.or_eq_true, t.send, bne_iff_ne]
    exact or_congr_right ⟨fun hs => ⟨hop, hs⟩, fun hs => hs.2⟩

theorem arriveStep (t : Peer c h) {body : List UInt8}
    (hstep : ArriveStep p hdr body (c.takeCredit hdr) c' pkts evs) :
    Peer c' (h ++ .handled hdr :: evs) := by
  obtain ⟨buf, fwd, heq⟩ := c.takeCredit_eq hdr
  rw [heq] at hstep
  have t' : Peer { c with peerBufAlloc := buf, peerFwdCnt := fwd } h :=
    ⟨t.offered, t.reset, t.rcv, t.send⟩
  have hnot : ∀ {op : UInt16}, op ≠ opShutdown → op ≠ opRst → hdr.op = op →
      hdr.op = opShutdown ∨ hdr.op = opRst → c.state = .new := by
    rintro op h₁ h₂ rfl (h | h)
    · exact absurd h h₁
    · exact absurd h h₂
  cases hstep with
  | ignore hshut => exact t.handled hshut (by simp) (by simp) Iff.rfl rfl rfl rfl
  | accept hop hstate =>
    refine t.handled (hnot (by decide) (by decide) hop) (by simp) (by simp) ?_ rfl rfl rfl
    have hoffered : c.state = .offered := hstate
    simp [hoffered]
  | append hop | discard hop =>
    exact t.handled (hnot (by decide) (by decide) hop) (by simp) (by simp) Iff.rfl rfl rfl rfl
  | shut hop hstate => exact t'.shut hop hstate
  | answer hop =>
    exact t.handled (hnot (by decide) (by decide) hop) (by simp) (by simp) Iff.rfl rfl rfl rfl

end Peer
