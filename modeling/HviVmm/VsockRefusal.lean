/-
A guest that acknowledges bytes it was never sent gets no credit.

The device takes a count of consumed bytes from every header, and what is in flight
is the difference of two counters that wrap.  A count ahead of what was framed makes
that difference huge, and no buffer the guest advertises leaves room besides it,
unless the buffer itself is nearly as large as the counters.

* `Conn.credit_ahead` — when such a header leaves no credit;
* `Refuses` — what the history of a connection says after such a header;
* `vsock_bogus_fwd_cnt_refused` — nothing is framed until the next header;
* `vsock_bogus_fwd_cnt_credited` — a guest that advertises a buffer of 4 GiB is
  credited all the same.
-/
import HviVmm.VsockWindow

open VirtioVsock

/-- How far the header's count is ahead of the bytes framed before it. -/
def aheadBy (h : List Event) (hdr : Hdr) : ℕ := (hdr.fwdCnt - UInt32.ofNat (framedLen h)).toNat

/-- The header counts bytes the guest was never sent, and the buffer it advertises is not
so large that the counters take it for room; or it comes before the connection was
offered, and is not taken. -/
def Bogus (h : List Event) (hdr : Hdr) : Prop :=
  .offered ∉ h ∨ 0 < aheadBy h hdr ∧ hdr.bufAlloc.toNat + aheadBy h hdr ≤ 2 ^ 32

/-- A connection without credit has nothing framed. -/
theorem Conn.framable_credit {c : Conn} (h : c.framable = true) : c.credit ≠ 0 := by
  simp only [Conn.framable, Bool.and_eq_true, decide_eq_true_eq] at h
  intro hzero
  rw [hzero] at h
  exact absurd h.2 (Nat.lt_irrefl 0)

/-- **A count ahead of `tx_cnt` leaves no credit**, unless the buffer reaches around the
counter. -/
theorem Conn.credit_ahead {c : Conn} (hahead : 0 < (c.peerFwdCnt - c.txCnt).toNat) :
    c.credit = 0 ↔ c.peerBufAlloc.toNat + (c.peerFwdCnt - c.txCnt).toNat ≤ 2 ^ 32 := by
  -- what is in flight is the distance back, around the counter
  have hflight : (c.txCnt - c.peerFwdCnt).toNat = 2 ^ 32 - (c.peerFwdCnt - c.txCnt).toNat := by
    rw [UInt32.toNat_sub] at hahead ⊢
    rw [UInt32.toNat_sub]
    have htx := c.txCnt.toNat_lt
    have hfwd := c.peerFwdCnt.toNat_lt
    omega
  have hzero : (0 : UInt32).toNat = 0 := rfl
  rw [← UInt32.toNat_inj, Conn.credit_toNat, hflight, hzero]
  have hlt := (c.peerFwdCnt - c.txCnt).toNat_lt
  omega

/-- The same for the header that carries the count. -/
theorem Conn.credit_bogus {c : Conn} {hdr : Hdr} (hstate : c.state ≠ .new)
    (hahead : 0 < (hdr.fwdCnt - c.txCnt).toNat) :
    (c.takeCredit hdr).credit = 0 ↔ hdr.bufAlloc.toNat + (hdr.fwdCnt - c.txCnt).toNat ≤ 2 ^ 32 := by
  have htaken : c.takeCredit hdr =
      { c with peerBufAlloc := hdr.bufAlloc, peerFwdCnt := hdr.fwdCnt } := by
    rw [Conn.takeCredit, if_pos (by simpa using hstate)]
  rw [htaken]
  exact Conn.credit_ahead (c := { c with peerBufAlloc := hdr.bufAlloc, peerFwdCnt := hdr.fwdCnt })
    hahead

/-! ### Histories -/

/-- Since the last header, which was bogus, nothing was framed. -/
def Refuses (h : List Event) : Prop :=
  ∀ h₁ hdr h₂, h = h₁ ++ .handled hdr :: h₂ → (∀ hdr', .handled hdr' ∉ h₂) →
    Bogus h₁ hdr → ∀ data, .framed data ∉ h₂

/-- What the history says about a connection: a connection never offered has no credit,
and neither has one whose last header was bogus. -/
structure Acked (_ : UInt32) (c : Conn) (h : List Event) : Prop where
  tx : c.txCnt = UInt32.ofNat (framedLen h)
  offered : .offered ∉ h → c.state = .new
  unoffered : c.state = .new → c.peerBufAlloc = 0
  refuses : Refuses h
  credit : ∀ h₁ hdr h₂, h = h₁ ++ .handled hdr :: h₂ → (∀ hdr', .handled hdr' ∉ h₂) →
    Bogus h₁ hdr → c.credit = 0

section Acked

variable {p : UInt32} {c c' : Conn} {h evs : List Event} {e : Event} {pkts : List Packet}

/-- A header in a history that grew is in what was there, or new. -/
theorem split_concat {h₁ h₂ : List Event} {hdr : Hdr}
    (heq : h ++ [e] = h₁ ++ .handled hdr :: h₂) :
    (h₁ = h ∧ e = .handled hdr ∧ h₂ = []) ∨
      ∃ h₂', h = h₁ ++ .handled hdr :: h₂' ∧ h₂ = h₂' ++ [e] := by
  rcases List.eq_nil_or_concat h₂ with rfl | ⟨h₂', e', rfl⟩
  · obtain ⟨hh, he⟩ := List.append_inj' heq rfl
    exact .inl ⟨hh.symm, List.singleton_inj.mp he, rfl⟩
  · have heq' : h ++ [e] = (h₁ ++ .handled hdr :: h₂') ++ [e'] := by simpa using heq
    obtain ⟨hh, he⟩ := List.append_inj' heq' rfl
    exact .inr ⟨h₂', hh, by rw [List.singleton_inj.mp he, List.concat_eq_append]⟩

/-- An event that is neither a header nor framing, for a connection that keeps its
counters. -/
theorem Acked.event (hI : Acked p c h) (hhdr : ∀ hdr, e ≠ .handled hdr)
    (hframe : ∀ data, e ≠ .framed data) : Acked p c (h ++ [e]) := by
  have hlen : framedLen (h ++ [e]) = framedLen h := by
    simp [framedLen]
  refine ⟨hlen ▸ hI.tx, fun hno => hI.offered fun hm => hno (List.mem_append_left _ hm),
    hI.unoffered, ?_, ?_⟩
  · intro h₁ hdr h₂ heq hlast hbogus data hmem
    rcases split_concat heq with ⟨-, he', -⟩ | ⟨h₂', hh, rfl⟩
    · exact hhdr hdr he'
    · rcases List.mem_append.mp hmem with hmem | hmem
      · exact hI.refuses h₁ hdr h₂' hh (fun hdr' hm => hlast hdr' (List.mem_append_left _ hm))
          hbogus data hmem
      · exact hframe data (List.mem_singleton.mp hmem).symm
  · intro h₁ hdr h₂ heq hlast hbogus
    rcases split_concat heq with ⟨-, he', -⟩ | ⟨h₂', hh, rfl⟩
    · exact absurd he' (hhdr hdr)
    · exact hI.credit h₁ hdr h₂' hh (fun hdr' hm => hlast hdr' (List.mem_append_left _ hm)) hbogus

theorem Acked.congr (hI : Acked p c h) (hfwd : c'.peerFwdCnt = c.peerFwdCnt)
    (hbuf : c'.peerBufAlloc = c.peerBufAlloc) (htx : c'.txCnt = c.txCnt)
    (hstate : c'.state = .new → c.state = .new) (hoff : .offered ∉ h → c'.state = .new) :
    Acked p c' h := by
  have hcredit : c'.credit = c.credit := by
    rw [Conn.credit, Conn.credit, hfwd, hbuf, htx]
  refine ⟨htx.trans hI.tx, hoff, fun hnew => hbuf.trans (hI.unoffered (hstate hnew)), hI.refuses,
    ?_⟩
  intro h₁ hdr h₂ heq hlast hbogus
  exact hcredit.trans (hI.credit h₁ hdr h₂ heq hlast hbogus)

/-- Events that are neither headers nor framing. -/
theorem Acked.events (hI : Acked p c h)
    (hevs : ∀ e ∈ evs, (∀ hdr, e ≠ .handled hdr) ∧ ∀ data, e ≠ .framed data) :
    Acked p c (h ++ evs) ∧ Marks (After Refuses p) h evs := by
  induction evs generalizing h with
  | nil => exact ⟨by rwa [List.append_nil], trivial⟩
  | cons e evs ih =>
    rw [List.forall_mem_cons] at hevs
    have happ : h ++ e :: evs = (h ++ [e]) ++ evs := by simp
    have hI' : Acked p c (h ++ [e]) := hI.event hevs.1.1 hevs.1.2
    obtain ⟨hlast, hmarks⟩ := ih hI' hevs.2
    exact ⟨happ ▸ hlast, hI'.refuses, hmarks⟩

/-- Framing: the last header was not bogus, or there would be no credit. -/
theorem Acked.frame (hI : Acked p c h) (hf : c.framable = true) :
    Acked p (c.frame c.frameLen) (h ++ [.framed (c.backlog.take c.frameLen)]) := by
  have hnone : ∀ h₁ hdr h₂, h ++ [.framed (c.backlog.take c.frameLen)] = h₁ ++ .handled hdr :: h₂ →
      (∀ hdr', .handled hdr' ∉ h₂) → ¬ Bogus h₁ hdr := by
    intro h₁ hdr h₂ heq hlast hbogus
    rcases split_concat heq with ⟨-, he, -⟩ | ⟨h₂', hh, rfl⟩
    · cases he
    · exact Conn.framable_credit hf (hI.credit h₁ hdr h₂' hh
        (fun hdr' hm => hlast hdr' (List.mem_append_left _ hm)) hbogus)
  refine ⟨?_, fun hno => hI.offered fun hm => hno (List.mem_append_left _ hm), ?_, ?_, ?_⟩
  · have hback : c.frameLen ≤ c.backlog.length :=
      (Nat.min_le_left _ _).trans (Nat.min_le_left _ _)
    have hlen : framedLen (h ++ [.framed (c.backlog.take c.frameLen)]) =
        framedLen h + c.frameLen := by
      simp [framedLen, hback]
    show c.txCnt + UInt32.ofNat c.frameLen = _
    rw [hlen, hI.tx, UInt32.ofNat_add]
  · exact hI.unoffered
  · intro h₁ hdr h₂ heq hlast hbogus
    exact absurd hbogus (hnone h₁ hdr h₂ heq hlast)
  · intro h₁ hdr h₂ heq hlast hbogus
    exact absurd hbogus (hnone h₁ hdr h₂ heq hlast)

/-- A header.  If it is bogus the credit is gone; a connection never offered had none. -/
theorem Acked.header (hI : Acked p c h) (hdr : Hdr) :
    Acked p (c.takeCredit hdr) (h ++ [.handled hdr]) := by
  have hlen : framedLen (h ++ [.handled hdr]) = framedLen h := by simp [framedLen]
  have hsplit : ∀ {h₁ hdr' h₂}, h ++ [.handled hdr] = h₁ ++ .handled hdr' :: h₂ →
      (∀ hdr'', .handled hdr'' ∉ h₂) → h₁ = h ∧ hdr' = hdr ∧ h₂ = [] := by
    intro h₁ hdr' h₂ heq hlast
    rcases split_concat heq with ⟨hh, he, hnil⟩ | ⟨h₂', -, rfl⟩
    · exact ⟨hh, (Event.handled.inj he).symm, hnil⟩
    · exact absurd (List.mem_append_right _ (List.mem_singleton_self _)) (hlast hdr)
  have hkeep : (c.takeCredit hdr).state = c.state ∧ (c.takeCredit hdr).txCnt = c.txCnt := by
    unfold Conn.takeCredit
    split <;> exact ⟨rfl, rfl⟩
  refine ⟨?_, fun hno => hkeep.1.trans (hI.offered fun hm => hno (List.mem_append_left _ hm)), ?_,
    ?_, ?_⟩
  · rw [hlen, ← hI.tx]
    exact hkeep.2
  · intro hnew
    by_cases hstate : c.state = .new
    · rw [Conn.takeCredit, if_neg (by simp [hstate])]
      exact hI.unoffered hstate
    · rw [Conn.takeCredit, if_pos (by simpa using hstate)] at hnew
      exact absurd hnew hstate
  · intro h₁ hdr' h₂ heq hlast _ data hmem
    obtain ⟨-, -, rfl⟩ := hsplit heq hlast
    cases hmem
  · intro h₁ hdr' h₂ heq hlast hbogus
    obtain ⟨rfl, rfl, -⟩ := hsplit heq hlast
    by_cases hstate : c.state = .new
    · rw [Conn.takeCredit, if_neg (by simp [hstate])]
      refine UInt32.toNat_inj.mp ?_
      rw [Conn.credit_toNat, hI.unoffered hstate]
      exact Nat.zero_sub _
    · rcases hbogus with hno | hbogus
      · exact absurd (hI.offered hno) hstate
      · rw [aheadBy, ← hI.tx] at hbogus
        exact (Conn.credit_bogus hstate hbogus.1).mpr hbogus.2

theorem Acked.fillStep (hI : Acked p c h) (hstep : FillStep p c c' pkts evs) :
    Acked p c' (h ++ evs) ∧ Marks (After Refuses p) h evs := by
  cases hstep with
  | frame hf =>
    have hI' := hI.frame hf
    exact ⟨hI', hI'.refuses, trivial⟩
  | keep | shutWrite | reset | poll | announce =>
    exact Acked.events (hI.congr rfl rfl rfl id hI.offered) (by simp)

theorem Acked.hostStep (hI : Acked p c h) (hstep : HostStep p c c' pkts evs) :
    Acked p c' (h ++ evs) ∧ Marks (After Refuses p) h evs := by
  cases hstep with
  | offer =>
    have hevs : ∀ e ∈ [Event.offered], (∀ hdr, e ≠ .handled hdr) ∧ ∀ data, e ≠ .framed data := by
      simp
    obtain ⟨hI', hmarks⟩ := hI.events hevs
    exact ⟨hI'.congr rfl rfl rfl (fun hnew => by cases hnew) fun hno => absurd (by simp) hno,
      hmarks⟩
  | refuse | queue | full | eof | hungUp | gone | flush | failed =>
    exact Acked.events (hI.congr rfl rfl rfl id hI.offered) (by simp)

theorem Acked.arriveStep (hI : Acked p c h) {hdr : Hdr} {body : List UInt8}
    (hstep : ArriveStep p hdr body c c' pkts evs) :
    Acked p c' (h ++ evs) ∧ Marks (After Refuses p) h evs := by
  cases hstep with
  | accept _ hstate =>
    refine Acked.events (hI.congr rfl rfl rfl (fun hnew => by cases hnew) fun hno => ?_) (by simp)
    rw [hI.offered hno] at hstate
    cases hstate
  | ignore | append | discard | answer =>
    exact Acked.events (hI.congr rfl rfl rfl id hI.offered) (by simp)
  | shut =>
    have hfields : (c.guestShut hdr).peerFwdCnt = c.peerFwdCnt ∧
        (c.guestShut hdr).peerBufAlloc = c.peerBufAlloc ∧ (c.guestShut hdr).txCnt = c.txCnt ∧
        (c.guestShut hdr).state = c.state := by
      simp only [Conn.guestShut]
      split <;> exact ⟨rfl, rfl, rfl, rfl⟩
    obtain ⟨hfwd, hbuf, htx, hstate⟩ := hfields
    refine Acked.events (hI.congr hfwd hbuf htx hstate.symm.trans fun hno =>
      hstate.trans (hI.offered hno)) ?_
    unfold Conn.shutClears
    split <;> simp

theorem sessionInv_acked : SessionInv Acked (After Refuses) where
  fresh p stream := by
    refine ⟨rfl, fun _ => rfl, fun _ => rfl, ?_, ?_⟩
    · intro h₁ hdr h₂ heq
      simp at heq
    · intro h₁ hdr h₂ heq
      simp at heq
  fill hstep hI := hI.fillStep hstep
  host hstep hI := hI.hostStep hstep
  arrive {p hdr _ c _ _ evs h} _ _ _ _ hstep hI := by
    have htaken := hI.header hdr
    obtain ⟨hlast, hmarks⟩ := htaken.arriveStep hstep
    have happ : h ++ .handled hdr :: evs = (h ++ [.handled hdr]) ++ evs := by simp
    exact ⟨happ ▸ hlast, htaken.refuses, hmarks⟩
  overrun {p hdr c h} hI := by
    have htaken := hI.header hdr
    have hno : ∀ e ∈ [Event.overrun], (∀ hdr, e ≠ .handled hdr) ∧ ∀ data, e ≠ .framed data := by
      simp
    exact ⟨htaken.refuses, (htaken.events hno).2⟩
  ended {_ c _} _ hI := by
    have hno : ∀ e ∈ [Event.ended c], (∀ hdr, e ≠ .handled hdr) ∧ ∀ data, e ≠ .framed data := by
      simp
    exact (hI.events hno).2.1

end Acked

/-- **A bogus `fwd_cnt` gets no credit.**  In every run, take a header of a guest that
counts bytes it was never sent: `tx_cnt` stands at the bytes framed for the connection
before it.  The credit is 0 with it exactly if the buffer it advertises does not reach
around the counter; and then, or if the connection was not offered yet and took no header,
it stays 0 until the next header of the connection and no host byte is framed. -/
theorem vsock_bogus_fwd_cnt_refused (mem : GuestRam) (calls : List Call) (p : UInt32)
    (h₁ h₂ : List Event) (hdr : Hdr)
    (hlife : life (((fresh mem).run calls).history p) = h₁ ++ .handled hdr :: h₂)
    (hlast : ∀ hdr', .handled hdr' ∉ h₂) (hahead : 0 < aheadBy h₁ hdr) :
    (∀ c : Conn, c.state ≠ .new → c.txCnt = UInt32.ofNat (framedLen h₁) →
      ((c.takeCredit hdr).credit = 0 ↔ hdr.bufAlloc.toNat + aheadBy h₁ hdr ≤ 2 ^ 32)) ∧
    (.offered ∉ h₁ ∨ hdr.bufAlloc.toNat + aheadBy h₁ hdr ≤ 2 ^ 32 →
      (∀ c, ((fresh mem).run calls).conn p = some c → c.credit = 0) ∧
        ∀ data, .framed data ∉ h₂) := by
  refine ⟨fun c hstate htx => ?_, fun hcond => ?_⟩
  · rw [aheadBy, ← htx] at hahead ⊢
    exact Conn.credit_bogus hstate hahead
  · have hinv := sessionInv_acked.run mem calls
    have hbogus : Bogus h₁ hdr := hcond.imp_right fun hbuf => ⟨hahead, hbuf⟩
    refine ⟨fun c hc => (hinv.conns p c hc).credit h₁ hdr h₂ hlife hlast hbogus, ?_⟩
    have hnil : Refuses [] := by
      intro h₁ hdr h₂ heq
      simp at heq
    have hrefuses : Refuses (life (((fresh mem).run calls).history p)) := by
      have := (hinv.past p).take hnil (life (((fresh mem).run calls).history p)).length
      rwa [List.take_length] at this
    exact hrefuses h₁ hdr h₂ hlife hlast hbogus

/-- The guest accepts a connection with a count of `fwdCnt` and a buffer of `bufAlloc`
bytes, and the host has a byte for it. -/
def bogusAccept (bufAlloc fwdCnt : UInt32) : List Call :=
  rxSetup ++
    [.addConn {}, .connect 40000, .handlePkt (agentPkt 40000 opResponse 0 bufAlloc fwdCnt []),
      .hostData 40000 [7]].map fun op => ⟨op, rxRam 2⟩

/-- The header it does so with. -/
def bogusHdr (bufAlloc fwdCnt : UInt32) : Hdr :=
  { srcCid := guestCid, dstCid := hostCid, srcPort := agentPort, dstPort := 40000, len := 0
    typ := typeStream, op := opResponse, flags := 0, bufAlloc, fwdCnt }

theorem vsock_bogus_fwd_cnt_refused_one :
    0 < aheadBy [.offered] (bogusHdr 0xffffffff 1) ∧
      ∀ data, .framed data ∉ [Event.passed [7], .queued [7]] :=
  ⟨by decide, ((vsock_bogus_fwd_cnt_refused sampleRam (bogusAccept 0xffffffff 1) 40000 [.offered]
    [.passed [7], .queued [7]] (bogusHdr 0xffffffff 1) (by decide +kernel) (by simp)
    (by decide)).2 (.inr (by decide))).2⟩

/-- **The largest buffers are credited**: nothing was sent, the guest counts two bytes and
advertises 4 GiB less one, and a byte is framed. -/
theorem vsock_bogus_fwd_cnt_credited :
    0 < ((bogusHdr 0xffffffff 2).fwdCnt - 0).toNat ∧
      ((bogusHdr 0xffffffff 2).fwdCnt - 0).toNat < 2 ^ 31 ∧
      life (((fresh sampleRam).run (bogusAccept 0xffffffff 2)).history 40000) =
        [.offered, .handled (bogusHdr 0xffffffff 2), .passed [7], .queued [7], .framed [7]] := by
  refine ⟨by decide, by decide, ?_⟩
  decide +kernel
