/-
What a connection owes the guest in credit.

Guest bytes count against the credit the device advertised until the host socket
took them or they were dropped.  `rx_cnt` counts the bytes that were given back.

* `credited`, `arrived` — what was given back and what the guest sent, as far as it
  was handled;
* `Account` — how they go together with a connection's counter and buffer;
* `sessionInv_account` — every step keeps an account, so nothing is given back that
  did not arrive.
-/
import HviVmm.VsockLedger

open VirtioVsock

/-! ### Counts over a history -/

namespace Event

/-- The bytes an event gives back to the guest as credit. -/
@[simp] def creditedBytes : Event → List UInt8
  | took data true => data
  | dropped data => data
  | discarded body => body
  | _ => []

/-- The bytes of a guest `OP_RW`, by its header. -/
@[simp] def rwLen : Event → ℕ
  | handled h => if h.op = opRw then h.len.toNat else 0
  | _ => 0

end Event

/-- How many bytes were given back. -/
def credited (h : List Event) : ℕ := (tally Event.creditedBytes h).length

/-- How many bytes the guest's packets said they carry. -/
def arrived (h : List Event) : ℕ := (h.map Event.rwLen).sum

/-- How many bytes the host took, or were dropped because it had gone. -/
def released (h : List Event) : ℕ :=
  (tally Event.tookBytes h).length + (tally Event.droppedBytes h).length +
    (tally Event.discardedBytes h).length

section Counts

variable (h evs : List Event)

theorem credited_append : credited (h ++ evs) = credited h + credited evs := by
  simp [credited]

theorem arrived_append : arrived (h ++ evs) = arrived h + arrived evs := by
  simp [arrived]

theorem credited_mono {h h' : List Event} (hle : h <+: h') : credited h ≤ credited h' := by
  obtain ⟨evs, rfl⟩ := hle
  rw [credited_append]
  exact Nat.le_add_right _ _

theorem arrived_mono {h h' : List Event} (hle : h <+: h') : arrived h ≤ arrived h' := by
  obtain ⟨evs, rfl⟩ := hle
  rw [arrived_append]
  exact Nat.le_add_right _ _

theorem released_cons (e : Event) : released (e :: h) = released [e] + released h := by
  simp only [released, tally_cons, tally_nil, List.append_nil, List.length_append]
  omega

theorem credited_cons (e : Event) : credited (e :: h) = credited [e] + credited h := by
  simp [credited]

/-- Only bytes that the host took or that were dropped are given back. -/
theorem credited_le_released : credited h ≤ released h := by
  induction h with
  | nil => exact Nat.le_refl 0
  | cons e h ih =>
    have he : credited [e] ≤ released [e] := by
      cases e with
      | took data b => cases b <;> simp [credited, released]
      | _ => simp [credited, released]
    rw [credited_cons, released_cons]
    omega

/-- All of them are, unless the host went while it took some. -/
theorem credited_eq_released {h : List Event} (hok : ∀ data, .took data false ∈ h → data = []) :
    credited h = released h := by
  induction h with
  | nil => rfl
  | cons e h ih =>
    have he : credited [e] = released [e] := by
      cases e with
      | took data b =>
        cases b with
        | false => simp [credited, released, hok data (by simp)]
        | true => simp [credited, released]
      | _ => simp [credited, released]
    rw [credited_cons, released_cons, he, ih fun data hd => hok data (by simp [hd])]

end Counts

/-! ### Accounts -/

/-- The accounts that do not depend on the connection: what waits for the host fits
in the buffer advertised, and nothing is given back that did not arrive. -/
structure Solvent (h : List Event) : Prop where
  waits : (tally Event.appendedBytes h).length ≤
    (tally Event.tookBytes h).length + (tally Event.droppedBytes h).length + ourBufAlloc.toNat
  owed : released h ≤ arrived h

/-- The account of a connection with history `h`. -/
structure Account (c : Conn) (h : List Event) : Prop where
  ledger : Ledger c h
  rx : c.rxCnt = UInt32.ofNat (credited h)
  unoffered : .offered ∉ h → c.state = .new ∧ c.toHost = [] ∧ credited h = 0
  accepted : (tally Event.appendedBytes h).length + (tally Event.discardedBytes h).length ≤
    arrived h
  fits : c.toHost.length ≤ ourBufAlloc.toNat

namespace Account

variable {c c' : Conn} {h evs : List Event} {p : UInt32} {pkts : List Packet}

theorem waiting (a : Account c h) : (tally Event.appendedBytes h).length =
    (tally Event.tookBytes h).length + (tally Event.droppedBytes h).length + c.toHost.length := by
  rw [a.ledger.toHost, List.length_append, List.length_append]

theorem solvent (a : Account c h) : Solvent h := by
  have hwait := a.waiting
  have hfits := a.fits
  have hacc := a.accepted
  exact ⟨by omega, by rw [released]; omega⟩

theorem new (stream : HostStream) : Account { stream } [] :=
  ⟨.new stream, rfl, fun _ => ⟨rfl, rfl, rfl⟩, Nat.le_refl 0, Nat.zero_le _⟩

/-- A step that neither brings guest bytes nor gives any back. -/
theorem still (a : Account c h) (l : Ledger c' (h ++ evs))
    (hevs : tally Event.appendedBytes evs = [] ∧ tally Event.discardedBytes evs = [] ∧
      tally Event.creditedBytes evs = [])
    (hrx : c'.rxCnt = c.rxCnt) (hstate : .offered ∉ h ++ evs → c'.state = c.state)
    (hto : c'.toHost = c.toHost) : Account c' (h ++ evs) := by
  have hcred : credited (h ++ evs) = credited h := by
    rw [credited_append, credited, credited, hevs.2.2]
    rfl
  refine ⟨l, ?_, fun hoff => ?_, ?_, hto ▸ a.fits⟩
  · rw [hcred, hrx, a.rx]
  · rw [hcred, hstate hoff, hto]
    exact a.unoffered fun hmem => hoff (List.mem_append_left _ hmem)
  · rw [tally_append, tally_append, hevs.1, hevs.2.1, List.append_nil, List.append_nil,
      arrived_append]
    exact a.accepted.trans (Nat.le_add_right _ _)

theorem fillStep (a : Account c h) (hstep : FillStep p c c' pkts evs) : Account c' (h ++ evs) := by
  have l := a.ledger.fillStep hstep
  cases hstep <;> exact a.still l ⟨rfl, rfl, rfl⟩ rfl (fun _ => rfl) rfl

/-- A step that takes bytes off the front of `to_host` and may give them back. -/
theorem release (a : Account c h) {e : Event} (l : Ledger c' (h ++ [e]))
    (hevs : e.appendedBytes = [] ∧ e.discardedBytes = [] ∧ e ≠ .offered)
    (hrx : c'.rxCnt = c.rxCnt + UInt32.ofNat (credited [e])) (hstate : c'.state = c.state)
    {n : ℕ} (hto : c'.toHost = c.toHost.drop n) (hcred : credited [e] ≤ c.toHost.length) :
    Account c' (h ++ [e]) := by
  have hnil : ∀ f : Event → List UInt8, f e = [] → tally f [e] = [] := fun f hf => by
    rw [tally_cons, hf, tally_nil]
    rfl
  refine ⟨l, ?_, fun hoff => ?_, ?_, ?_⟩
  · rw [hrx, a.rx, credited_append, UInt32.ofNat_add]
  · rw [List.mem_append, not_or] at hoff
    obtain ⟨hnew, hempty, hzero⟩ := a.unoffered hoff.1
    rw [hempty, List.length_nil, Nat.le_zero] at hcred
    rw [hstate, hto, hempty, credited_append, hzero, hcred]
    exact ⟨hnew, List.drop_nil, rfl⟩
  · rw [tally_append, tally_append, hnil _ hevs.1, hnil _ hevs.2.1, List.append_nil,
      List.append_nil, arrived_append]
    exact a.accepted.trans (Nat.le_add_right _ _)
  · rw [hto, List.length_drop]
    exact (Nat.sub_le _ _).trans a.fits

theorem hostStep (a : Account c h) (hstep : HostStep p c c' pkts evs) : Account c' (h ++ evs) := by
  have l := a.ledger.hostStep hstep
  cases hstep with
  | offer => exact a.still l ⟨rfl, rfl, rfl⟩ rfl (fun hoff => by simp at hoff) rfl
  | refuse | queue | full | eof | hungUp =>
    exact a.still l ⟨rfl, rfl, rfl⟩ rfl (fun _ => rfl) rfl
  | gone =>
    refine a.release l ⟨rfl, rfl, by simp⟩ ?_ rfl (n := c.toHost.length) ?_ ?_
    · simp [Conn.gone, credited]
    · simp [Conn.gone]
    · simp [credited]
  | @flush sent rest writes hto =>
    refine a.release l ⟨rfl, rfl, by simp⟩ ?_ rfl (n := sent.length) rfl ?_
    · simp [Conn.flushed, Conn.sentOff, credited]
    · simp [credited, hto]
  | @failed sent rest writes hto =>
    refine a.release l ⟨rfl, rfl, by simp⟩ ?_ rfl (n := sent.length) rfl (Nat.zero_le _)
    exact (UInt32.add_zero _).symm

theorem credit (a : Account c h) (hdr : Hdr) :
    Account (c.takeCredit hdr) (h ++ [.handled hdr]) := by
  have l := a.ledger.credit hdr
  obtain ⟨buf, fwd, heq⟩ := c.takeCredit_eq hdr
  rw [heq] at l ⊢
  exact a.still l ⟨rfl, rfl, rfl⟩ rfl (fun _ => rfl) rfl

/-- A guest packet brings no more bytes than its header says. -/
theorem arriveStep (a : Account c h) {hdr : Hdr} {body : List UInt8}
    (hlen : body.length ≤ hdr.len.toNat)
    (hstep : ArriveStep p hdr body (c.takeCredit hdr) c' pkts evs) :
    Account c' (h ++ .handled hdr :: evs) := by
  have a' := a.credit hdr
  have l := a'.ledger.arriveStep hstep
  have happ : h ++ .handled hdr :: evs = (h ++ [.handled hdr]) ++ evs := by simp
  -- what a packet with data adds to `arrived`
  have hroom : hdr.op = opRw → (tally Event.appendedBytes h).length +
      (tally Event.discardedBytes h).length + body.length ≤ arrived (h ++ [.handled hdr]) := by
    intro hop
    have hacc := a.accepted
    rw [arrived_append]
    simp only [arrived, List.map_cons, List.map_nil, List.sum_cons, List.sum_nil, Event.rwLen, hop,
      if_true] at hacc ⊢
    omega
  rw [happ]
  generalize c.takeCredit hdr = d at hstep a' l
  cases hstep with
  | ignore | answer => exact a'.still l ⟨rfl, rfl, rfl⟩ rfl (fun _ => rfl) rfl
  | accept hop hstate =>
    refine a'.still l ⟨rfl, rfl, rfl⟩ rfl (fun hoff => ?_) rfl
    rw [List.append_nil] at hoff
    rw [(a'.unoffered hoff).1] at hstate
    cases hstate
  | append hop hstate _ _ hfit =>
    refine ⟨l, ?_, fun hoff => ?_, ?_, by simpa using hfit⟩
    · rw [credited_append]
      exact a'.rx
    · rw [List.mem_append, not_or] at hoff
      rw [(a'.unoffered hoff.1).1] at hstate
      cases hstate
    · have := hroom hop
      rw [arrived_append]
      simp at this ⊢
      omega
  | discard hop hstate =>
    refine ⟨l, ?_, fun hoff => ?_, ?_, a'.fits⟩
    · rw [credited_append, UInt32.ofNat_add, ← a'.rx]
      simp [credited]
    · rw [List.mem_append, not_or] at hoff
      rw [(a'.unoffered hoff.1).1] at hstate
      cases hstate
    · have := hroom hop
      rw [arrived_append]
      simp at this ⊢
      omega
  | shut =>
    have hfields : (d.guestShut hdr).rxCnt = d.rxCnt ∧ (d.guestShut hdr).state = d.state := by
      simp only [Conn.guestShut]
      split <;> exact ⟨rfl, rfl⟩
    refine a'.still l ?_ hfields.1 (fun _ => hfields.2) (d.guestShut_fields hdr).1
    unfold Conn.shutClears
    split <;> exact ⟨rfl, rfl, rfl⟩

end Account

/-! ### Every run -/

/-- An event without bytes of the guest, or with a guest header. -/
theorem Solvent.event {h : List Event} (b : Solvent h) {e : Event}
    (he : e.appendedBytes = [] ∧ released [e] = 0) : Solvent (h ++ [e]) := by
  have hrel : released (h ++ [e]) = released h := by
    have hsum : released (h ++ [e]) = released h + released [e] := by
      simp only [released, tally_append, List.length_append]
      omega
    rw [hsum, he.2, Nat.add_zero]
  refine ⟨?_, ?_⟩
  · have hwaits := b.waits
    rw [tally_append, tally_append, tally_append, tally_cons, he.1]
    simp only [tally_nil, List.length_append, List.length_nil]
    omega
  · rw [hrel, arrived_append]
    exact b.owed.trans (Nat.le_add_right _ _)

/-- Events of which only the last concerns guest bytes. -/
theorem Solvent.marks {p : UInt32} {h evs : List Event} (b : Solvent h)
    (hlast : Solvent (h ++ evs))
    (hevs : ∀ e ∈ evs.dropLast, e.appendedBytes = [] ∧ released [e] = 0) :
    Marks (After Solvent p) h evs := by
  induction evs generalizing h with
  | nil => trivial
  | cons e evs ih =>
    cases evs with
    | nil => exact ⟨hlast, trivial⟩
    | cons e' evs =>
      rw [List.dropLast_cons_cons, List.forall_mem_cons] at hevs
      have b' := b.event hevs.1
      refine ⟨b', ih b' ?_ hevs.2⟩
      simpa using hlast

/-- **Every step keeps the account of a connection.** -/
theorem sessionInv_account : SessionInv (fun _ c h => Account c h) (After Solvent) where
  fresh _ := Account.new
  fill hstep a :=
    ⟨a.fillStep hstep, a.solvent.marks (a.fillStep hstep).solvent (by cases hstep <;> simp)⟩
  host hstep a := by
    refine ⟨a.hostStep hstep, a.solvent.marks (a.hostStep hstep).solvent ?_⟩
    cases hstep <;> simp [released]
  arrive _ _ _ hlen hstep a := by
    have a' := a.arriveStep hlen hstep
    refine ⟨a', a.solvent.marks a'.solvent ?_⟩
    cases hstep with
    | shut =>
      unfold Conn.shutClears
      split <;> simp [released]
    | _ => simp [released]
  overrun {_ hdr _ h} a := by
    have b : Solvent (h ++ [.handled hdr]) := a.solvent.event ⟨rfl, rfl⟩
    exact ⟨b, b.event ⟨rfl, rfl⟩, trivial⟩
  ended _ a := a.solvent.event ⟨rfl, rfl⟩
