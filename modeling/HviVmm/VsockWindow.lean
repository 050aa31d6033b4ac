/-
The device never sends the guest more than it has room for.

A guest advertises the size of its buffer and a count of the bytes it consumed, and
its packets may be handled late.  The device frames bytes against the last count it
took, over counters that wrap.

* `Consumes` — what a guest that counts right did during a connection's life;
* `Windowed` — the device's counters and the last count taken form a window;
* `vsock_credit_never_overrun` — at every moment, what was framed and not consumed
  fits in the guest's buffer.
-/
import HviVmm.CreditWindow
import HviVmm.VsockStream
import Mathlib.Tactic.IntervalCases

open VirtioVsock CreditWindow

/-- How many bytes were framed for the guest. -/
def framedLen (h : List Event) : ℕ := (tally Event.framedBytes h).length

theorem framedLen_append (h evs : List Event) :
    framedLen (h ++ evs) = framedLen h + framedLen evs := by
  simp [framedLen]

/-- A guest's side of a life `h`.  When `h` had `k` events it had consumed `consumed k`
bytes, of those it was sent.  The header of event `i` advertises a buffer of `buf`
bytes and counts `stamp i` bytes, which the guest had consumed when it sent it, at
any time before; headers are handled in the order they were sent. -/
structure Consumes (buf : UInt32) (consumed stamp : ℕ → ℕ) (h : List Event) : Prop where
  grows : ∀ k < h.length, consumed k ≤ consumed (k + 1)
  sent : ∀ k ≤ h.length, consumed k ≤ framedLen (h.take k)
  header : ∀ i hdr, h[i]? = some (.handled hdr) →
    hdr.bufAlloc = buf ∧ hdr.fwdCnt = UInt32.ofNat (stamp i) ∧ stamp i ≤ consumed (i + 1)
  inOrder : ∀ i j hdr hdr', i ≤ j → h[i]? = some (.handled hdr) →
    h[j]? = some (.handled hdr') → stamp i ≤ stamp j

/-- The device's counters for a connection with life `h`: the last count it took from
the guest is `freed`, and what it framed is within the guest's buffer. -/
structure Windowed (buf : UInt32) (consumed stamp : ℕ → ℕ) (c : Conn) (h : List Event)
    (freed : ℕ) : Prop where
  window : Window buf.toNat (framedLen h) freed
  consumed : freed ≤ consumed h.length
  last : freed = 0 ∨ ∃ i hdr, h[i]? = some (.handled hdr) ∧ freed = stamp i
  fwd : c.peerFwdCnt = UInt32.ofNat freed
  alloc : c.peerBufAlloc = buf ∨ c.peerBufAlloc = 0
  tx : c.txCnt = UInt32.ofNat (framedLen h)

section Window

variable {buf : UInt32} {consumed stamp : ℕ → ℕ} {c c' : Conn} {h evs : List Event} {e : Event}
  {freed : ℕ} {p : UInt32} {pkts : List Packet}

/-- An event of a history is one of a longer one. -/
theorem getElem?_append_some {i : ℕ} (hi : h[i]? = some e) : (h ++ evs)[i]? = some e := by
  rw [List.getElem?_append_left (List.getElem?_eq_some_iff.mp hi).1, hi]

theorem Consumes.left (g : Consumes buf consumed stamp (h ++ evs)) :
    Consumes buf consumed stamp h where
  grows k hk := g.grows k (by rw [List.length_append]; omega)
  sent k hk := by
    have := g.sent k (by rw [List.length_append]; omega)
    rwa [List.take_append_of_le_length hk] at this
  header i hdr hi := g.header i hdr (getElem?_append_some hi)
  inOrder i j hdr hdr' hij hi hj :=
    g.inOrder i j hdr hdr' hij (getElem?_append_some hi) (getElem?_append_some hj)

namespace Windowed

theorem start (buf : UInt32) (stream : HostStream) :
    Windowed buf consumed stamp { stream } [] 0 where
  window := .start _
  consumed := Nat.zero_le _
  last := .inl rfl
  fwd := rfl
  alloc := .inr rfl
  tx := rfl

theorem congr (w : Windowed buf consumed stamp c h freed)
    (hfwd : c'.peerFwdCnt = c.peerFwdCnt) (halloc : c'.peerBufAlloc = c.peerBufAlloc)
    (htx : c'.txCnt = c.txCnt) : Windowed buf consumed stamp c' h freed :=
  ⟨w.window, w.consumed, w.last, hfwd.trans w.fwd, halloc ▸ w.alloc, htx.trans w.tx⟩

theorem event (w : Windowed buf consumed stamp c h freed) (he : e.framedBytes = [])
    (g : Consumes buf consumed stamp (h ++ [e])) :
    Windowed buf consumed stamp c (h ++ [e]) freed := by
  have hlen : framedLen (h ++ [e]) = framedLen h := by
    have hnone : tally Event.framedBytes [e] = [] := by rw [tally_cons, he, tally_nil]; rfl
    rw [framedLen_append, framedLen, framedLen, hnone]
    rfl
  have hgrow := g.grows h.length (by simp)
  refine ⟨hlen ▸ w.window, ?_, w.last.imp id ?_, w.fwd, w.alloc, hlen ▸ w.tx⟩
  · rw [List.length_append, List.length_singleton]
    exact w.consumed.trans hgrow
  · rintro ⟨i, hdr, hi, hfreed⟩
    exact ⟨i, hdr, getElem?_append_some hi, hfreed⟩

/-- A header is not older than the last one, and counts no more than was framed. -/
theorem take {hdr : Hdr} (w : Windowed buf consumed stamp c h freed)
    (g : Consumes buf consumed stamp (h ++ [.handled hdr])) :
    Windowed buf consumed stamp
      { c with peerBufAlloc := hdr.bufAlloc, peerFwdCnt := hdr.fwdCnt } (h ++ [.handled hdr])
      (stamp h.length) := by
  have hhere : (h ++ [.handled hdr])[h.length]? = some (.handled hdr) := by simp
  have hlen : framedLen (h ++ [.handled hdr]) = framedLen h := by simp [framedLen]
  obtain ⟨hbuf, hfwd, hstamp⟩ := g.header _ _ hhere
  have hsent := g.sent (h.length + 1) (by simp)
  rw [List.take_of_length_le (by simp), hlen] at hsent
  have hnewer : freed ≤ stamp h.length := by
    rcases w.last with rfl | ⟨i, hdr', hi, rfl⟩
    · exact Nat.zero_le _
    · have hlt := (List.getElem?_eq_some_iff.mp hi).1
      exact g.inOrder _ _ _ _ hlt.le (getElem?_append_some hi) hhere
  refine ⟨?_, ?_, .inr ⟨_, hdr, hhere, rfl⟩, hfwd, .inl hbuf, hlen ▸ w.tx⟩
  · rw [hlen]
    exact w.window.report hnewer (hstamp.trans hsent)
  · rw [List.length_append, List.length_singleton]
    exact hstamp

theorem frame (w : Windowed buf consumed stamp c h freed) (hf : c.framable = true)
    (g : Consumes buf consumed stamp (h ++ [.framed (c.backlog.take c.frameLen)])) :
    Windowed buf consumed stamp (c.frame c.frameLen)
      (h ++ [.framed (c.backlog.take c.frameLen)]) freed := by
  have hcredit : 0 < c.credit.toNat := by
    simp only [Conn.framable, Bool.and_eq_true, decide_eq_true_eq] at hf
    exact hf.2
  have hle : c.frameLen ≤ c.credit.toNat := Nat.min_le_right _ _
  have hlen : framedLen (h ++ [.framed (c.backlog.take c.frameLen)]) =
      framedLen h + c.frameLen := by
    have hback : c.frameLen ≤ c.backlog.length :=
      (Nat.min_le_left _ _).trans (Nat.min_le_left _ _)
    simp [framedLen, hback]
  -- the credit is what the guest's buffer leaves besides the bytes outstanding
  have hval : c.credit.toNat =
      c.peerBufAlloc.toNat - (UInt32.ofNat (framedLen h) - UInt32.ofNat freed).toNat := by
    rw [← w.tx, ← w.fwd, Conn.credit_toNat]
  have halloc : c.peerBufAlloc = buf := by
    refine w.alloc.resolve_right fun h0 => ?_
    rw [hval, h0] at hcredit
    simp at hcredit
  rw [halloc] at hval
  refine ⟨?_, ?_, w.last.imp id ?_, w.fwd, w.alloc, ?_⟩
  · rw [hlen]
    exact w.window.send buf.toNat_lt (by omega)
  · rw [List.length_append, List.length_singleton]
    exact w.consumed.trans (g.grows h.length (by simp))
  · rintro ⟨i, hdr, hi, hfreed⟩
    exact ⟨i, hdr, getElem?_append_some hi, hfreed⟩
  · show c.txCnt + UInt32.ofNat c.frameLen = _
    rw [hlen, w.tx, UInt32.ofNat_add]

theorem bound (w : Windowed buf consumed stamp c h freed) :
    framedLen h ≤ consumed h.length + buf.toNat :=
  w.window.fits.trans (Nat.add_le_add_right w.consumed _)

end Windowed

/-! ### Every run -/

section Run

variable (buf : UInt32) (consumed stamp : ℕ → ℕ)

/-- As long as the guest counts right, its connection has a window. -/
def InWindow (_ : UInt32) (c : Conn) (h : List Event) : Prop :=
  Consumes buf consumed stamp h → ∃ freed, Windowed buf consumed stamp c h freed

/-- As long as the guest counts right, it has room for what was framed. -/
def HasRoom (h : List Event) : Prop :=
  Consumes buf consumed stamp h → framedLen h ≤ consumed h.length + buf.toNat

variable {buf consumed stamp}

theorem InWindow.congr (hI : InWindow buf consumed stamp p c h)
    (hfwd : c'.peerFwdCnt = c.peerFwdCnt) (halloc : c'.peerBufAlloc = c.peerBufAlloc)
    (htx : c'.txCnt = c.txCnt) : InWindow buf consumed stamp p c' h := fun g => by
  obtain ⟨freed, w⟩ := hI g
  exact ⟨freed, w.congr hfwd halloc htx⟩

theorem InWindow.room (hI : InWindow buf consumed stamp p c h) :
    HasRoom buf consumed stamp h := fun g => by
  obtain ⟨freed, w⟩ := hI g
  exact w.bound

theorem InWindow.events (hI : InWindow buf consumed stamp p c h)
    (hevs : ∀ e ∈ evs, e.framedBytes = []) :
    InWindow buf consumed stamp p c (h ++ evs) ∧
      Marks (After (HasRoom buf consumed stamp) p) h evs := by
  induction evs generalizing h with
  | nil => exact ⟨by rwa [List.append_nil], trivial⟩
  | cons e evs ih =>
    rw [List.forall_mem_cons] at hevs
    have happ : h ++ e :: evs = (h ++ [e]) ++ evs := by simp
    have hI' : InWindow buf consumed stamp p c (h ++ [e]) := fun g => by
      obtain ⟨freed, w⟩ := hI g.left
      exact ⟨freed, w.event hevs.1 g⟩
    obtain ⟨hlast, hmarks⟩ := ih hI' hevs.2
    exact ⟨happ ▸ hlast, hI'.room, hmarks⟩

theorem InWindow.fillStep (hI : InWindow buf consumed stamp p c h)
    (hstep : FillStep p c c' pkts evs) :
    InWindow buf consumed stamp p c' (h ++ evs) ∧
      Marks (After (HasRoom buf consumed stamp) p) h evs := by
  cases hstep with
  | frame hf =>
    have hI' : InWindow buf consumed stamp p (c.frame c.frameLen)
        (h ++ [.framed (c.backlog.take c.frameLen)]) := fun g => by
      obtain ⟨freed, w⟩ := hI g.left
      exact ⟨freed, w.frame hf g⟩
    exact ⟨hI', hI'.room, trivial⟩
  | keep | shutWrite | reset | poll | announce =>
    exact InWindow.events (hI.congr rfl rfl rfl) (by simp)

theorem InWindow.hostStep (hI : InWindow buf consumed stamp p c h)
    (hstep : HostStep p c c' pkts evs) :
    InWindow buf consumed stamp p c' (h ++ evs) ∧
      Marks (After (HasRoom buf consumed stamp) p) h evs := by
  cases hstep <;> exact InWindow.events (hI.congr rfl rfl rfl) (by simp)

/-- A header is taken, unless the connection was never offered. -/
theorem InWindow.credit (hI : InWindow buf consumed stamp p c h) (hdr : Hdr) :
    InWindow buf consumed stamp p (c.takeCredit hdr) (h ++ [.handled hdr]) := fun g => by
  obtain ⟨freed, w⟩ := hI g.left
  unfold Conn.takeCredit
  split
  · exact ⟨_, w.take g⟩
  · exact ⟨_, w.event rfl g⟩

theorem InWindow.arriveStep (hI : InWindow buf consumed stamp p c h) {hdr : Hdr}
    {body : List UInt8} (hstep : ArriveStep p hdr body c c' pkts evs) :
    InWindow buf consumed stamp p c' (h ++ evs) ∧
      Marks (After (HasRoom buf consumed stamp) p) h evs := by
  cases hstep with
  | ignore | accept | append | discard | answer =>
    exact InWindow.events (hI.congr rfl rfl rfl) (by simp)
  | shut =>
    have hfields : (c.guestShut hdr).peerFwdCnt = c.peerFwdCnt ∧
        (c.guestShut hdr).peerBufAlloc = c.peerBufAlloc ∧ (c.guestShut hdr).txCnt = c.txCnt := by
      simp only [Conn.guestShut]
      split <;> exact ⟨rfl, rfl, rfl⟩
    refine InWindow.events (hI.congr hfields.1 hfields.2.1 hfields.2.2) ?_
    unfold Conn.shutClears
    split <;> simp

theorem sessionInv_inWindow :
    SessionInv (InWindow buf consumed stamp) (After (HasRoom buf consumed stamp)) where
  fresh _ stream _ := ⟨0, .start buf stream⟩
  fill hstep hI := hI.fillStep hstep
  host hstep hI := hI.hostStep hstep
  arrive {p hdr _ c _ _ evs h} _ _ _ _ hstep hI := by
    have hcredit := hI.credit hdr
    obtain ⟨hlast, hmarks⟩ := hcredit.arriveStep hstep
    have happ : h ++ .handled hdr :: evs = (h ++ [.handled hdr]) ++ evs := by simp
    exact ⟨happ ▸ hlast, hcredit.room, hmarks⟩
  overrun hI := (hI.events (by simp)).2
  ended {_ c _} _ hI := by
    have hevs : ∀ e ∈ [Event.ended c], e.framedBytes = [] := by simp
    exact (hI.events hevs).2.1

end Run

end Window

/-- **Credit is never overrun**: in every run, if the guest of a connection counts the
bytes it consumes and advertises a buffer of `buf` bytes, then at every moment of the
connection's life what was framed for it and not consumed is at most `buf` bytes,
however late its headers are handled and however often the counters wrap. -/
theorem vsock_credit_never_overrun (mem : GuestRam) (calls : List Call) (p buf : UInt32)
    (consumed stamp : ℕ → ℕ)
    (hguest : Consumes buf consumed stamp (life (((fresh mem).run calls).history p))) :
    ∀ k ≤ (life (((fresh mem).run calls).history p)).length,
      framedLen ((life (((fresh mem).run calls).history p)).take k) ≤ consumed k + buf.toNat := by
  have hinv : SessionInv (InWindow buf consumed stamp) (After (HasRoom buf consumed stamp)) :=
    sessionInv_inWindow
  have hmarks := (hinv.run mem calls).past p
  generalize life (((fresh mem).run calls).history p) = h at hguest hmarks ⊢
  intro k hk
  have hroom : HasRoom buf consumed stamp (h.take k) := hmarks.take (fun _ => Nat.zero_le _) k
  rw [← List.take_append_drop k h] at hguest
  have := hroom hguest.left
  rwa [List.length_take, Nat.min_eq_left hk] at this

/-- A guest with a buffer of two bytes that gets three. -/
def smallBuffer : List Call :=
  rxSetup ++
    [.addConn {}, .connect 40000, .handlePkt (agentPkt 40000 opResponse 0 2 0 []),
      .hostData 40000 [7, 8, 9],
      .handlePkt (agentPkt 40000 opCreditUpdate 0 2 2 [])].map fun op => ⟨op, rxRam 3⟩

/-- A header of that guest. -/
def smallBufferHdr (op : UInt16) (fwdCnt : UInt32) : Hdr :=
  { srcCid := guestCid, dstCid := hostCid, srcPort := agentPort, dstPort := 40000, len := 0
    typ := typeStream, op, flags := 0, bufAlloc := 2, fwdCnt }

theorem life_smallBuffer : life (((fresh sampleRam).run smallBuffer).history 40000) =
    [.offered, .handled (smallBufferHdr opResponse 0), .passed [7, 8, 9], .queued [7, 8, 9],
      .framed [7, 8], .handled (smallBufferHdr opCreditUpdate 2), .framed [9]] := by
  decide +kernel

theorem vsock_credit_small_buffer : ∃ consumed stamp,
    Consumes 2 consumed stamp (life (((fresh sampleRam).run smallBuffer).history 40000)) ∧
      ∀ k ≤ (life (((fresh sampleRam).run smallBuffer).history 40000)).length,
        framedLen ((life (((fresh sampleRam).run smallBuffer).history 40000)).take k) ≤
          consumed k + 2 := by
  -- it reads the first two bytes once they are there, and says so
  let consumed : ℕ → ℕ := fun k => if k < 5 then 0 else 2
  have hguest : Consumes 2 consumed (fun i => if i < 5 then 0 else 2)
      (life (((fresh sampleRam).run smallBuffer).history 40000)) := by
    rw [life_smallBuffer]
    refine ⟨by decide, by decide, fun i hdr hi => ?_, fun i j hdr hdr' hij hi hj => ?_⟩
    · have hlt : i < 7 := (List.getElem?_eq_some_iff.mp hi).1
      interval_cases i <;> simp [smallBufferHdr] at hi <;> subst hi <;> decide
    · split
      · exact Nat.zero_le _
      · rw [if_neg (by omega)]
  exact ⟨consumed, _, hguest,
    vsock_credit_never_overrun sampleRam smallBuffer 40000 2 consumed _ hguest⟩
