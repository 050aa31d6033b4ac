/-
Ports are used once.

`add_conn` hands out host ports from a 32-bit counter.  As long as no more than
2³² connections are registered no port comes back, so everything recorded for a
port concerns one connection.

* `Sent` — what the packets a connection queues look like;
* `Ports` — a port that was not handed out has no history and no packets, and one
  that was has had one life;
* `Ports.step` — a step keeps this as long as no more than 2³² connections are
  registered.
-/
import HviVmm.VsockHistory

open VirtioVsock

/-! ### The packets of a connection -/

/-- `pkt` is a frame from port `p` that advertises `fwd`. -/
def Sent (p fwd : UInt32) (pkt : Packet) : Prop :=
  ∃ f : Frame, pkt = f.bytes ∧ f.hdr.srcPort = p ∧ f.hdr.bufAlloc = ourBufAlloc ∧ f.hdr.fwdCnt = fwd

section Sent

variable {p q fwd : UInt32} {pkt : Packet} {c c' : Conn} {pkts : List Packet} {evs : List Event}

theorem sent_controlPkt (p : UInt32) (op : UInt16) (flags fwd : UInt32) :
    Sent p fwd (controlPkt p op flags fwd) :=
  ⟨.control _ rfl, (Frame.bytes_control _ rfl).symm, rfl, rfl, rfl⟩

theorem sent_requestPkt (p : UInt32) : Sent p 0 (requestPkt p) :=
  ⟨.control _ rfl, (Frame.bytes_control _ rfl).symm, rfl, rfl, rfl⟩

theorem sent_rwPkt (p : UInt32) {body : List UInt8} (h : body.length ≤ maxRw) (fwd : UInt32) :
    Sent p fwd (rwPkt p body fwd) := by
  refine ⟨⟨_, body, ?_⟩, rfl, rfl, rfl, rfl⟩
  simp only [maxRw] at h
  simp
  omega

theorem length_frame_le (c : Conn) : (c.backlog.take c.frameLen).length ≤ maxRw := by
  simp only [List.length_take, Conn.frameLen]
  omega

theorem fillStep_sent (h : FillStep p c c' pkts evs) :
    c'.rxCnt = c.rxCnt ∧ ∀ pkt ∈ pkts, Sent p c.rxCnt pkt := by
  cases h with
  | frame => exact ⟨rfl, by simpa using sent_rwPkt p (length_frame_le c) c.rxCnt⟩
  | reset | announce => exact ⟨rfl, by simpa using sent_controlPkt ..⟩
  | keep | shutWrite | poll => exact ⟨rfl, by simp⟩

theorem hostStep_sent (h : HostStep p c c' pkts evs) :
    ∀ pkt ∈ pkts, Sent p c'.rxCnt pkt ∨ (pkt = requestPkt p ∧ evs = [.offered]) := by
  cases h with
  | offer => simp
  | gone =>
    intro pkt hpkt
    split at hpkt
    · rw [List.mem_singleton] at hpkt
      exact .inl (hpkt ▸ sent_controlPkt ..)
    · cases hpkt
  | flush =>
    intro pkt hpkt
    split at hpkt
    · rw [List.mem_singleton] at hpkt
      exact .inl (hpkt ▸ sent_controlPkt ..)
    · cases hpkt
  | refuse | queue | full | eof | hungUp | failed => simp

theorem arriveStep_sent {hdr : Hdr} {body : List UInt8}
    (h : ArriveStep p hdr body c c' pkts evs) : ∀ pkt ∈ pkts, Sent p c'.rxCnt pkt := by
  cases h with
  | discard | answer => simpa using sent_controlPkt ..
  | ignore | accept | append | shut => simp

theorem farewell_sent (c : Conn) (p : UInt32) : ∀ pkt ∈ c.farewell p, Sent p c.rxCnt pkt := by
  unfold Conn.farewell
  split
  · split
    · simpa using sent_controlPkt ..
    · split
      · simpa using sent_controlPkt ..
      · simp
  · simp

end Sent

/-! ### Ports -/

namespace VirtioVsock

/-- The port of the `i`-th connection. -/
def portOf (i : ℕ) : UInt32 := 40000 + UInt32.ofNat i

theorem portOf_inj {i j : ℕ} (hi : i < 2 ^ 32) (hj : j < 2 ^ 32) (h : portOf i = portOf j) :
    i = j := by
  have := congrArg UInt32.toNat h
  simp [portOf, UInt32.toNat_add] at this
  omega

/-- `p` was handed out. -/
def Used (s : VirtioVsock) (p : UInt32) : Prop := ∃ i < s.registrations, p = portOf i

/-- A packet the device made: it refuses an `OP_REQUEST` the guest has sent, or comes from
a used port. -/
def Owned (s : VirtioVsock) (pkt : Packet) : Prop :=
  ∃ f : Frame, pkt = f.bytes ∧ ((∃ h ∈ s.asked, pkt = refusalPkt h) ∨ s.Used f.hdr.srcPort)

/-- `h` is one life. -/
def OneLife (h : List Event) : Prop := ∃ pre, (pre = [] ∨ pre = [.registered]) ∧ h = pre ++ life h

/-- Nothing is known of a port that was not handed out, and one connection only of a
port that was. -/
structure Ports (s : VirtioVsock) : Prop where
  next : s.nextPort = portOf s.registrations
  live : ∀ p c, s.conn p = some c → s.Used p
  unused : ∀ p, ¬ s.Used p → s.history p = []
  once : ∀ p, OneLife (s.history p)
  owned : ∀ pkt ∈ s.delivered ++ s.pending, s.Owned pkt

section Ports

variable {s s' : VirtioVsock} {p : UInt32} {pkts : List Packet} {evs : List Event}
variable {pkt : Packet}

theorem Owned.of_sent {fwd : UInt32} (hp : s.Used p) (h : Sent p fwd pkt) : s.Owned pkt := by
  obtain ⟨f, hf, hsrc, -⟩ := h
  exact ⟨f, hf, .inr (hsrc ▸ hp)⟩

theorem Owned.mono (h : s.Owned pkt) (hle : s.registrations ≤ s'.registrations)
    (hasked : s.asked <+: s'.asked) : s'.Owned pkt := by
  obtain ⟨f, hf, hown⟩ := h
  refine ⟨f, hf, hown.imp ?_ ?_⟩
  · rintro ⟨h, hmem, hpkt⟩
    exact ⟨h, hasked.subset hmem, hpkt⟩
  · rintro ⟨i, hi, hp⟩
    exact ⟨i, by omega, hp⟩

/-- The two parts of a cut packet are the device's too. -/
theorem owned_cutFor {cap : ℕ} (hcap : hdrLen ≤ cap) {rest : List Packet}
    (h : ∀ x ∈ pkt :: rest, s.Owned x) :
    s.Owned (cutFor cap pkt rest).1 ∧ ∀ x ∈ (cutFor cap pkt rest).2, s.Owned x := by
  unfold cutFor
  rw [List.forall_mem_cons] at h
  split
  · next hlt =>
    obtain ⟨⟨f, rfl, ⟨hdr, -, href⟩ | hused⟩, hrest⟩ := h
    · -- a refusal is a header, which fits
      rw [href, refusalPkt, Hdr.length_toBytes] at hlt
      omega
    · simp only [f.splitPending_bytes hcap hlt, List.forall_mem_cons]
      exact ⟨⟨_, rfl, .inr hused⟩, ⟨_, rfl, .inr hused⟩, hrest⟩
  · exact h

/-- Events that register nothing add to the life. -/
theorem OneLife.append {h : List Event} (ho : OneLife h) (hevs : .registered ∉ evs) :
    OneLife (h ++ evs) := by
  obtain ⟨pre, hpre, heq⟩ := ho
  refine ⟨pre, hpre, ?_⟩
  rw [life_append hevs, ← List.append_assoc, ← heq]

/-- A count over a port's history is a count over its life. -/
theorem OneLife.tally_life {h : List Event} (ho : OneLife h) {f : Event → List UInt8}
    (hf : f .registered = []) : tally f h = tally f (life h) := by
  obtain ⟨pre, hpre, heq⟩ := ho
  have hnil : tally f pre = [] := by
    rcases hpre with rfl | rfl
    · rfl
    · simp [hf]
  rw [heq, tally_append, hnil, List.nil_append, ← heq]

/-- Packets and events of a port that is in use. -/
theorem Ports.record (h : Ports s) (hp : s.Used p) (hevs : .registered ∉ evs)
    (hpkts : ∀ pkt ∈ pkts, s.Owned pkt)
    (hconn : ∀ q c, s'.conn q = some c → q = p ∨ s.conn q = some c)
    (hhist : s'.history = VirtioVsock.record s.history p evs)
    (hpend : s'.pending = s.pending ++ pkts) (hdel : s'.delivered = s.delivered)
    (hreg : s'.registrations = s.registrations) (hnext : s'.nextPort = s.nextPort)
    (hasked : s'.asked = s.asked) : Ports s' where
  next := by rw [hnext, hreg, h.next]
  live q c hc := by
    rw [Used, hreg]
    rcases hconn q c hc with rfl | hc
    · exact hp
    · exact h.live q c hc
  unused q hq := by
    rw [Used, hreg] at hq
    have hne : q ≠ p := fun heq => hq (heq ▸ hp)
    rw [hhist, record_ne _ _ hne]
    exact h.unused q hq
  once q := by
    rw [hhist]
    by_cases hq : q = p
    · subst hq
      rw [record_self]
      exact (h.once q).append hevs
    · rw [record_ne _ _ hq]
      exact h.once q
  owned pkt hpkt := by
    rw [hdel, hpend, ← List.append_assoc, List.mem_append] at hpkt
    refine Owned.mono (s := s) ?_ (by rw [hreg]) (by rw [hasked])
    exact hpkt.elim (h.owned pkt) (hpkts pkt)

theorem Ports.commit (h : Ports s) (hp : s.Used p) (hevs : .registered ∉ evs)
    (hpkts : ∀ pkt ∈ pkts, s.Owned pkt) (c : Conn) : Ports (s.commit p c pkts evs) := by
  refine h.record hp hevs hpkts (fun q d hd => ?_) rfl rfl rfl rfl rfl rfl
  by_cases hq : q = p
  · exact .inl hq
  · rw [conn_commit_ne _ _ _ _ hq] at hd
    exact .inr hd

theorem Ports.remove (h : Ports s) (hp : s.Used p) (hevs : .registered ∉ evs)
    (hpkts : ∀ pkt ∈ pkts, s.Owned pkt) : Ports (s.remove p pkts evs) := by
  refine h.record hp hevs hpkts (fun q d hd => ?_) rfl rfl rfl rfl rfl rfl
  by_cases hq : q = p
  · exact .inl hq
  · rw [conn_remove_ne _ _ _ hq] at hd
    exact .inr hd

/-- The port `add_conn` hands out next was not handed out before. -/
theorem Ports.next_unused (h : Ports s) (hlt : s.registrations < 2 ^ 32) : ¬ s.Used s.nextPort := by
  rintro ⟨i, hi, hp⟩
  rw [h.next] at hp
  have := portOf_inj hlt (by omega) hp
  omega

/-- A step keeps the count of registrations or adds one. -/
theorem Step.registrations_le {l : Label} (h : Step l s s') :
    s.registrations ≤ s'.registrations ∧ (l ≠ .register → s'.registrations = s.registrations) := by
  cases h with
  | register hn =>
    rw [addConn, if_pos hn]
    exact ⟨Nat.le_succ _, fun h => absurd rfl h⟩
  | _ => exact ⟨Nat.le_refl _, fun _ => rfl⟩

/-- **One step** uses no port twice. -/
theorem Ports.step {l : Label} (hstep : Step l s s') (hle : s'.registrations ≤ 2 ^ 32)
    (h : Ports s) : Ports s' := by
  cases hstep with
  | host hc hhost =>
    have hp := h.live _ _ hc
    refine h.commit hp (hostStep_registered hhost) (fun pkt hpkt => ?_) _
    rcases hostStep_sent hhost pkt hpkt with hsent | ⟨rfl, -⟩
    · exact .of_sent hp hsent
    · exact .of_sent hp (sent_requestPkt _)
  | arrive _ _ _ hc harr =>
    have hp := h.live _ _ hc
    refine h.commit hp ?_ (fun pkt hpkt => .of_sent hp (arriveStep_sent harr pkt hpkt)) _
    exact List.not_mem_cons_of_ne_of_not_mem (by simp) (arriveStep_registered harr)
  | overrun _ _ _ hc =>
    have hp := h.live _ _ hc
    refine h.remove hp (by simp) fun pkt hpkt => ?_
    rw [List.mem_singleton] at hpkt
    exact hpkt ▸ .of_sent hp (sent_controlPkt ..)
  | fill hc hfill =>
    have hp := h.live _ _ hc
    exact h.commit hp (fillStep_registered hfill)
      (fun pkt hpkt => .of_sent hp ((fillStep_sent hfill).2 pkt hpkt)) _
  | ended hc =>
    have hp := h.live _ _ hc
    exact h.remove hp (by simp) fun pkt hpkt => .of_sent hp (farewell_sent _ _ pkt hpkt)
  | refuse =>
    refine ⟨h.next, h.live, h.unused, h.once, fun pkt hpkt => ?_⟩
    simp only [← List.append_assoc, List.mem_append (t := [_]), List.mem_singleton] at hpkt
    rcases hpkt with hpkt | rfl
    · exact (h.owned pkt hpkt).mono (Nat.le_refl _) (List.prefix_append _ _)
    · exact ⟨.control _ rfl, (Frame.bytes_control _ rfl).symm, .inl ⟨_, by simp, rfl⟩⟩
  | deliver hpend hcap =>
    have hown := h.owned
    rw [hpend] at hown
    obtain ⟨hcut, hrest⟩ := owned_cutFor hcap fun x hx => hown x (List.mem_append_right _ hx)
    refine ⟨h.next, h.live, h.unused, h.once, fun x hx => ?_⟩
    simp only [List.mem_append, List.mem_singleton] at hx
    rcases hx with (hx | rfl) | hx
    · exact hown x (List.mem_append_left _ hx)
    · exact hcut
    · exact hrest x hx
  | lose hpend hcap =>
    have hown := h.owned
    rw [hpend] at hown
    obtain ⟨-, hrest⟩ := owned_cutFor hcap fun x hx => hown x (List.mem_append_right _ hx)
    refine ⟨h.next, h.live, h.unused, h.once, fun x hx => ?_⟩
    rcases List.mem_append.mp hx with hx | hx
    · exact hown x (List.mem_append_left _ hx)
    · exact hrest x hx
  | quiet => exact ⟨h.next, h.live, h.unused, h.once, h.owned⟩
  | @register _ stream hn =>
    rw [addConn, if_pos hn] at hle ⊢
    have hlt : s.registrations < 2 ^ 32 := hle
    refine ⟨?_, fun p c hc => ?_, fun p hp => ?_, fun p => ?_, fun pkt hpkt => ?_⟩
    · show s.nextPort + 1 = portOf (s.registrations + 1)
      rw [h.next, portOf, portOf, UInt32.ofNat_add, UInt32.add_assoc]
      rfl
    · have hlook : AList.lookup p (s.conns.insert s.nextPort { stream }) = some c := hc
      by_cases hp : p = s.nextPort
      · exact ⟨s.registrations, Nat.lt_succ_self _, hp.trans h.next⟩
      · rw [AList.lookup_insert_ne hp] at hlook
        obtain ⟨i, hi, heq⟩ := h.live p c hlook
        exact ⟨i, Nat.lt_succ_of_lt hi, heq⟩
    · have hne : p ≠ s.nextPort := fun heq =>
        hp ⟨s.registrations, Nat.lt_succ_self _, heq.trans h.next⟩
      show VirtioVsock.record s.history s.nextPort [.registered] p = []
      rw [record_ne _ _ hne]
      refine h.unused p ?_
      rintro ⟨i, hi, heq⟩
      exact hp ⟨i, Nat.lt_succ_of_lt hi, heq⟩
    · show OneLife (VirtioVsock.record s.history s.nextPort [.registered] p)
      by_cases hp : p = s.nextPort
      · subst hp
        rw [record_self, h.unused _ (h.next_unused hlt)]
        exact ⟨[.registered], .inr rfl, rfl⟩
      · rw [record_ne _ _ hp]
        exact h.once p
    · exact (h.owned pkt hpkt).mono (Nat.le_succ _) List.prefix_rfl
  | reset =>
    refine ⟨h.next, fun p c hc => (by cases hc), h.unused, h.once, fun pkt hpkt => ?_⟩
    rw [reset, List.append_nil] at hpkt
    exact h.owned pkt (List.mem_append_left _ hpkt)
  | dropConns => exact ⟨h.next, fun p c hc => (by cases hc), h.unused, h.once, h.owned⟩

theorem ports_fresh (mem : GuestRam) : Ports (fresh mem) where
  next := rfl
  live _ _ hc := nomatch hc
  unused _ _ := rfl
  once _ := ⟨[], .inl rfl, rfl⟩
  owned _ hpkt := nomatch hpkt

/-! ### Counting registrations -/

/-- Whether a call is an `add_conn`. -/
def Op.isAddConn : Op → Bool
  | .addConn _ => true
  | _ => false

theorem noRegister_registrations (h : Steps NoRegister s s') :
    s'.registrations = s.registrations := by
  refine h.inv (P := fun t => t.registrations = s.registrations) ?_ rfl
  exact fun hl hstep heq => (hstep.registrations_le.2 hl).trans heq

theorem step_registrations (s : VirtioVsock) (call : Call) :
    (s.step call).registrations ≤ s.registrations + if call.op.isAddConn then 1 else 0 := by
  by_cases hadd : ∃ stream, call.op = .addConn stream
  · obtain ⟨stream, hop⟩ := hadd
    rw [step, hop]
    show (addConn _ stream).2.registrations ≤ s.registrations + 1
    unfold addConn
    split
    · exact Nat.le_refl _
    · exact Nat.le_succ _
  · rw [noRegister_registrations (step_noRegister s fun stream hop => hadd ⟨stream, hop⟩)]
    exact Nat.le_add_right _ _

/-- A run registers at most as many connections as it calls `add_conn`. -/
theorem run_registrations (s : VirtioVsock) (calls : List Call) :
    (s.run calls).registrations ≤ s.registrations + calls.countP (·.op.isAddConn) := by
  induction calls generalizing s with
  | nil => exact Nat.le_refl _
  | cons call calls ih =>
    have h₁ := step_registrations s call
    have h₂ := ih (s.step call)
    rw [List.countP_cons]
    show ((s.step call).run calls).registrations ≤ _
    omega

end Ports

end VirtioVsock
