/-
The byte ledger of a connection.

Every byte that entered a connection's two buffers is accounted for by its
history: guest bytes are taken by the socket, dropped when the host goes, or wait
in `to_host`; host bytes are framed, cleared when the guest receives nothing more,
or wait in the backlog.

* `Ledger` — the accounts;
* `sessionInv_ledger` — every step of a connection keeps them, and a connection
  that `settle` removes is balanced when it goes.
-/
import HviVmm.VsockHistory

open VirtioVsock

/-- The accounts of a connection with history `h`. -/
structure Ledger (c : Conn) (h : List Event) : Prop where
  /-- Guest bytes: taken first, then dropped, then waiting. -/
  toHost : tally Event.appendedBytes h =
    tally Event.tookBytes h ++ tally Event.droppedBytes h ++ c.toHost
  kept : c.hostGone = false → tally Event.droppedBytes h = []
  gone : c.hostGone = true → c.toHost = []
  /-- Host bytes: framed first, then cleared, then waiting. -/
  backlog : tally Event.queuedBytes h =
    tally Event.framedBytes h ++ tally Event.clearedBytes h ++ c.backlog
  uncut : c.guestRcvShut = false → tally Event.clearedBytes h = []
  cut : c.guestRcvShut = true → c.backlog = []
  passed : c.guestRcvShut = false → tally Event.queuedBytes h = tally Event.passedBytes h

namespace Ledger

variable {c c' : Conn} {h evs : List Event}

theorem new (stream : HostStream) : Ledger { stream } [] where
  toHost := rfl
  kept _ := rfl
  gone _ := rfl
  backlog := rfl
  uncut _ := rfl
  cut _ := rfl
  passed _ := rfl

/-- Events that move no byte, and a change that touches no buffer. -/
theorem still (l : Ledger c h)
    (hevs : ∀ e ∈ evs, e.appendedBytes = [] ∧ e.tookBytes = [] ∧ e.droppedBytes = [] ∧
      e.queuedBytes = [] ∧ e.framedBytes = [] ∧ e.clearedBytes = [] ∧ e.passedBytes = [])
    (hto : c'.toHost = c.toHost) (hback : c'.backlog = c.backlog)
    (hgone : c'.hostGone = c.hostGone) (hrcv : c'.guestRcvShut = c.guestRcvShut) :
    Ledger c' (h ++ evs) := by
  have hnil : ∀ f : Event → List UInt8, (∀ e ∈ evs, f e = []) → tally f evs = [] :=
    fun f hf => List.flatMap_eq_nil_iff.mpr hf
  have h1 := hnil _ fun e he => (hevs e he).1
  have h2 := hnil _ fun e he => (hevs e he).2.1
  have h3 := hnil _ fun e he => (hevs e he).2.2.1
  have h4 := hnil _ fun e he => (hevs e he).2.2.2.1
  have h5 := hnil _ fun e he => (hevs e he).2.2.2.2.1
  have h6 := hnil _ fun e he => (hevs e he).2.2.2.2.2.1
  have h7 := hnil _ fun e he => (hevs e he).2.2.2.2.2.2
  constructor <;>
    simp only [tally_append, h1, h2, h3, h4, h5, h6, h7, List.append_nil, hto, hback, hgone, hrcv]
  · simpa using l.toHost
  · exact l.kept
  · exact l.gone
  · exact l.backlog
  · exact l.uncut
  · exact l.cut
  · exact l.passed

/-- A step without events that touches no buffer. -/
theorem keep (l : Ledger c h) (hto : c'.toHost = c.toHost) (hback : c'.backlog = c.backlog)
    (hgone : c'.hostGone = c.hostGone) (hrcv : c'.guestRcvShut = c.guestRcvShut) :
    Ledger c' (h ++ []) :=
  l.still (by simp) hto hback hgone hrcv

theorem framable_backlog (hf : c.framable = true) : c.backlog ≠ [] := by
  simp only [Conn.framable, Bool.and_eq_true, Bool.not_eq_true', List.isEmpty_eq_false_iff] at hf
  exact hf.1.2

/-- Framing moves bytes from the backlog's front. -/
theorem frame (l : Ledger c h) (hf : c.framable = true) (n : ℕ) :
    Ledger (c.frame n) (h ++ [.framed (c.backlog.take n)]) := by
  have hrcv : c.guestRcvShut = false := by
    rw [← Bool.not_eq_true]
    exact fun hr => framable_backlog hf (l.cut hr)
  have hback := l.backlog
  rw [l.uncut hrcv, List.append_nil] at hback
  constructor <;> simp [Conn.frame, l.uncut hrcv]
  · simpa using l.toHost
  · exact l.kept
  · exact l.gone
  · exact hback
  · exact fun hr => by simp [l.cut hr]
  · exact l.passed

theorem queue (l : Ledger c h) (hrcv : c.guestRcvShut = false) (data : List UInt8) :
    Ledger { c with backlog := c.backlog ++ data } (h ++ [.passed data, .queued data]) := by
  have hback := l.backlog
  rw [l.uncut hrcv, List.append_nil] at hback
  have hpassed := l.passed hrcv
  constructor <;> simp [l.uncut hrcv, hrcv]
  · simpa using l.toHost
  · exact l.kept
  · exact l.gone
  · rw [hback, List.append_assoc]
  · exact hpassed

/-- Bytes for a guest that receives nothing more. -/
theorem refuse (l : Ledger c h) (hrcv : c.guestRcvShut = true) (data : List UInt8)
    (gate : HostGate) : Ledger { c with readerGate := gate } (h ++ [.passed data]) := by
  constructor <;> simp [hrcv]
  · simpa using l.toHost
  · exact l.kept
  · exact l.gone
  · simpa using l.backlog
  · exact l.cut hrcv

theorem hostGone (l : Ledger c h) (hg : c.hostGone = false) :
    Ledger c.gone (h ++ [.dropped c.toHost]) := by
  have hto := l.toHost
  rw [l.kept hg, List.append_nil] at hto
  constructor <;> simp [Conn.gone, l.kept hg]
  · exact hto
  · simpa using l.backlog
  · exact l.uncut
  · exact l.cut
  · exact l.passed

theorem sent (l : Ledger c h) {sent rest : List UInt8} (hto : c.toHost = sent ++ rest)
    (credited : Bool) (hto' : c'.toHost = rest) (hback : c'.backlog = c.backlog)
    (hgone : c'.hostGone = c.hostGone) (hrcv : c'.guestRcvShut = c.guestRcvShut) :
    Ledger c' (h ++ [.took sent credited]) := by
  have hacc := l.toHost
  have hdrop : tally Event.droppedBytes h ++ sent = sent ++ tally Event.droppedBytes h := by
    cases hg : c.hostGone with
    | false => simp [l.kept hg]
    | true =>
      have := l.gone hg
      rw [hto, List.append_eq_nil_iff] at this
      simp [this.1]
  constructor <;> simp [hto', hback, hgone, hrcv]
  · rw [hacc, hto, List.append_assoc, ← List.append_assoc _ sent, hdrop, List.append_assoc]
  · exact l.kept
  · intro hg
    have := l.gone hg
    rw [hto, List.append_eq_nil_iff] at this
    exact this.2
  · simpa using l.backlog
  · exact l.uncut
  · exact l.cut
  · exact l.passed

theorem append (l : Ledger c h) (hg : c.hostGone = false) (body : List UInt8) :
    Ledger { c with toHost := c.toHost ++ body } (h ++ [.appended body]) := by
  have hto := l.toHost
  rw [l.kept hg, List.append_nil] at hto
  constructor <;> simp [l.kept hg, hg]
  · rw [hto, List.append_assoc]
  · simpa using l.backlog
  · exact l.uncut
  · exact l.cut
  · exact l.passed

end Ledger

namespace Conn

theorem guestShut_fields (c : Conn) (h : Hdr) : (c.guestShut h).toHost = c.toHost ∧
    (c.guestShut h).hostGone = c.hostGone ∧
    (c.guestShut h).guestRcvShut = (c.guestRcvShut || shutFlags h &&& shutdownRcv != 0) ∧
    (c.guestShut h).backlog = if shutFlags h &&& shutdownRcv != 0 then [] else c.backlog := by
  simp only [guestShut]
  split <;> exact ⟨rfl, rfl, rfl, rfl⟩

end Conn

namespace Ledger

variable {c c' : Conn} {h evs : List Event}

/-- A guest that receives nothing more clears the backlog. -/
theorem shut (l : Ledger c h) (hdr : Hdr) : Ledger (c.guestShut hdr) (h ++ c.shutClears hdr) := by
  obtain ⟨hto, hgone, hrcv, hback⟩ := c.guestShut_fields hdr
  unfold Conn.shutClears
  cases hflag : Conn.shutFlags hdr &&& shutdownRcv != 0 with
  | false =>
    rw [hflag] at hrcv hback
    exact l.keep hto hback hgone (by simpa using hrcv)
  | true =>
    rw [hflag, Bool.or_true] at hrcv
    rw [hflag] at hback
    constructor <;> simp [hto, hgone, hrcv, hback]
    · simpa using l.toHost
    · exact l.kept
    · exact l.gone
    · simpa using l.backlog

theorem credit (l : Ledger c h) (hdr : Hdr) : Ledger (c.takeCredit hdr) (h ++ [.handled hdr]) := by
  obtain ⟨buf, fwd, heq⟩ := c.takeCredit_eq hdr
  rw [heq]
  exact l.still (by simp) rfl rfl rfl rfl

/-! ### Steps -/

section Steps

variable {p : UInt32} {pkts : List Packet}

theorem fillStep (l : Ledger c h) (hstep : FillStep p c c' pkts evs) : Ledger c' (h ++ evs) := by
  cases hstep with
  | frame hf => exact l.frame hf _
  | keep | shutWrite | reset | poll | announce => exact l.keep rfl rfl rfl rfl

theorem hostStep (l : Ledger c h) (hstep : HostStep p c c' pkts evs) : Ledger c' (h ++ evs) := by
  cases hstep with
  | offer | eof => exact l.still (by simp) rfl rfl rfl rfl
  | full | hungUp => exact l.keep rfl rfl rfl rfl
  | refuse hrcv => exact l.refuse hrcv _ _
  | queue hrcv => exact l.queue hrcv _
  | gone hg => exact l.hostGone hg
  | flush hto => exact l.sent hto true (by simp [Conn.flushed, Conn.sentOff, hto]) rfl rfl rfl
  | failed hto => exact l.sent hto false (by simp [Conn.sentOff, hto]) rfl rfl rfl

theorem arriveStep (l : Ledger c h) {hdr : Hdr} {body : List UInt8}
    (hstep : ArriveStep p hdr body c c' pkts evs) : Ledger c' (h ++ evs) := by
  cases hstep with
  | ignore | accept | answer => exact l.keep rfl rfl rfl rfl
  | append _ _ _ hg => exact l.append hg body
  | discard => exact l.still (by simp) rfl rfl rfl rfl
  | shut => exact l.shut hdr

end Steps

end Ledger

/-- **The accounts are kept**, and a connection that `settle` removes is balanced and
finished. -/
theorem sessionInv_ledger :
    SessionInv (fun _ c h => Ledger c h) (EndedWith fun _ c h => Ledger c h) :=
  .of_kept (fun _ => Ledger.new) (fun hstep l => l.fillStep hstep) (fun hstep l => l.hostStep hstep)
    (fun hdr l => l.credit hdr) (fun hstep l => l.arriveStep hstep)
