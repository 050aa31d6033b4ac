/-
A frame for the guest is delivered whole or not at all.

`inject_rx` spreads the header and the frame over the writable descriptors of the first RX
chain while it walks it, and completes the chain only if all of it fitted.  What it wrote of
a frame that it then drops stays in the buffers, but the chain stays posted.

* `Injected`, `Dropped` — the two outcomes, as the driver sees them;
* `injectRx_iff` — it is one of the two, exactly if the stores leave the used index as it is and
  the pieces of a packet that is taken do not overlap;
* `VirtioNet.net_rx_same_buffer_twice` — a chain that comes back to a descriptor has its buffer
  written twice, and is completed with a length it does not hold.
-/
import HviVmm.Net

open ByteCodec ByteStore Checked

namespace VirtioNet

/-- The pieces of the chain at `head` that the header and a frame go into, as the device meets
them, and whether it came to the end of the chain. -/
def pieces (s : VirtioNet) (head : UInt16) (frame : List UInt8) : List (ℕ × ℕ) × Bool :=
  s.rx.fillPieces s.rx.size.toNat head s.mem (rxHdr ++ frame)

/-- The chain at `head` takes all of a frame: its descriptors are in the ring, the buffers that
are reached in RAM, and there is room. -/
def Takes (s : VirtioNet) (head : UInt16) (frame : List UInt8) : Prop :=
  (s.pieces head frame).2 = true ∧ netHdrLen + frame.length ≤ total (s.pieces head frame).1

/-- The header and the frame went into the chain at `head`. -/
structure Injected (s s' : VirtioNet) (frame : List UInt8) (head : UInt16) : Prop where
  posted : s.rxHead = some head
  distinct : (s.pieces head frame).1.Pairwise Apart
  /-- The pieces hold the packet, and nothing else has changed, when the element is pushed. -/
  written : ∃ m, gather m (s.pieces head frame).1 = rxHdr ++ frame ∧
    AgreeOff (Covered (s.pieces head frame).1) s.mem.bytes m ∧
    s'.mem.bytes = s.rx.usedPoke m head (UInt32.ofNat (netHdrLen + frame.length))
  /-- The next slot of the used ring has the chain and the length. -/
  completed : s.rx.usedElem s'.mem.bytes (s.rx.usedIdx s.mem.bytes) =
    ⟨head.toUInt32, UInt32.ofNat (netHdrLen + frame.length)⟩
  exact : (UInt32.ofNat (netHdrLen + frame.length)).toNat = netHdrLen + frame.length
  pushed : s.rx.usedIdx s'.mem.bytes = s.rx.usedIdx s.mem.bytes + 1
  advanced : s'.rx.lastAvail = s.rx.lastAvail + 1
  raised : s'.transport.interruptStatus = s.transport.interruptStatus ||| 1

/-- The driver sees nothing. -/
structure Dropped (s s' : VirtioNet) : Prop where
  lastAvail : s'.rx.lastAvail = s.rx.lastAvail
  usedIdx : s.rx.usedIdx s'.mem.bytes = s.rx.usedIdx s.mem.bytes
  interruptStatus : s'.transport.interruptStatus = s.transport.interruptStatus

/-- What is stored into the chain leaves the used index as it is; and if the chain takes the
packet, its pieces do not overlap and a `u32` holds its length. -/
structure RxClear (s : VirtioNet) (head : UInt16) (frame : List UInt8) : Prop where
  usedIdx : s.rx.usedIdx (scatter s.mem.bytes (s.pieces head frame).1 (rxHdr ++ frame)) =
    s.rx.usedIdx s.mem.bytes
  apart : s.Takes head frame → (s.pieces head frame).1.Pairwise Apart
  length : s.Takes head frame → netHdrLen + frame.length < 2 ^ 32

theorem length_rxHdr_append (frame : List UInt8) :
    (rxHdr ++ frame).length = netHdrLen + frame.length := by
  rw [List.length_append]
  rfl

section Outcomes

variable {s : VirtioNet} {head : UInt16} {frame : List UInt8}

theorem rxHead_ready (h : s.rxHead = some head) : s.rx.isReady = true := by
  unfold rxHead at h
  split at h
  · next hready => exact hready
  · cases h

/-- A packet that the chain takes goes over the pieces, and the chain is completed. -/
theorem injectRx_takes (hok : RingsOk s) (hhead : s.rxHead = some head)
    (htake : s.Takes head frame) :
    (s.injectRx frame).mem.bytes =
        s.rx.usedPoke (scatter s.mem.bytes (s.pieces head frame).1 (rxHdr ++ frame)) head
          (UInt32.ofNat (netHdrLen + frame.length)) ∧
      (s.injectRx frame).rx.lastAvail = s.rx.lastAvail + 1 ∧
      (s.injectRx frame).transport.interruptStatus = s.transport.interruptStatus ||| 1 := by
  have hregions := s.rx.fillChain_regions s.rx.size.toNat head s.mem (rxHdr ++ frame)
  obtain ⟨hleft, hbytes⟩ := s.rx.fillChain_eq s.rx.size.toNat head s.mem (rxHdr ++ frame)
  have hall : (rxHdr ++ frame).drop (total (s.pieces head frame).1) = [] :=
    List.drop_eq_nil_of_le ((length_rxHdr_append frame).trans_le htake.2)
  rw [← pieces, htake.1, if_pos rfl, hall] at hleft
  have hfed : (s.feed frame false).rxHead = some head := hhead
  unfold injectRx
  simp only [hfed]
  split
  · next mem hfill =>
    have hfill : s.rx.fillChain s.rx.size.toNat head s.mem (rxHdr ++ frame) = (some [], mem) :=
      hfill
    rw [hfill] at hregions hbytes
    have hpush := Queue.pushUsed_eq ((hok 0).congr hregions) (rxHead_ready hhead) head
      (UInt32.ofNat (rxHdr ++ frame).length)
    refine ⟨?_, rfl, rfl⟩
    rw [pieces, ← hbytes, ← length_rxHdr_append]
    exact congrArg GuestRam.bytes hpush
  · next left mem hne hfill =>
    have hfill : s.rx.fillChain s.rx.size.toNat head s.mem (rxHdr ++ frame) = (left, mem) := hfill
    rw [hfill] at hleft
    exact absurd hleft hne

/-- A packet that the chain does not take leaves the chain posted. -/
theorem injectRx_keeps (hhead : s.rxHead = some head) (htake : ¬s.Takes head frame) :
    (s.injectRx frame).mem.bytes = scatter s.mem.bytes (s.pieces head frame).1 (rxHdr ++ frame) ∧
      (s.injectRx frame).rx.lastAvail = s.rx.lastAvail ∧
      (s.injectRx frame).transport.interruptStatus = s.transport.interruptStatus := by
  obtain ⟨hleft, hbytes⟩ := s.rx.fillChain_eq s.rx.size.toNat head s.mem (rxHdr ++ frame)
  rw [← pieces] at hleft
  have hfed : (s.feed frame false).rxHead = some head := hhead
  unfold injectRx
  simp only [hfed]
  split
  · next mem hfill =>
    have hfill : s.rx.fillChain s.rx.size.toNat head s.mem (rxHdr ++ frame) = (some [], mem) :=
      hfill
    rw [hfill] at hleft
    refine absurd ?_ htake
    cases hend : (s.pieces head frame).2 with
    | false =>
      rw [hend] at hleft
      cases hleft
    | true =>
      rw [hend, if_pos rfl, Option.some.injEq] at hleft
      exact ⟨hend, length_rxHdr_append frame ▸ List.drop_eq_nil_iff.mp hleft.symm⟩
  · next left mem hne hfill =>
    have hfill : s.rx.fillChain s.rx.size.toNat head s.mem (rxHdr ++ frame) = (left, mem) := hfill
    rw [hfill] at hbytes
    exact ⟨hbytes, rfl, rfl⟩

theorem lastAvail_succ_ne (q : Queue) : q.lastAvail + 1 ≠ q.lastAvail := by
  intro h
  have hnat := congrArg UInt16.toNat h
  rw [UInt16.toNat_add, show (1 : UInt16).toNat = 1 from rfl] at hnat
  have hlt := q.lastAvail.toNat_lt
  omega

/-- A packet that the chain takes is injected whole exactly if its place is clear. -/
theorem takes_iff (hok : RingsOk s) (hhead : s.rxHead = some head) (htake : s.Takes head frame) :
    ((∃ head, Injected s (s.injectRx frame) frame head) ∨ Dropped s (s.injectRx frame)) ↔
      RxClear s head frame := by
  obtain ⟨hbytes, hlast, hint⟩ := injectRx_takes hok hhead htake
  constructor
  · rintro (⟨head', hin⟩ | hdrop)
    · cases hhead.symm.trans hin.posted
      have hidx := hin.pushed
      rw [hbytes, s.rx.usedIdx_usedPoke] at hidx
      have hlen := (UInt32.ofNat (netHdrLen + frame.length)).toNat_lt
      rw [hin.exact] at hlen
      exact ⟨(UInt16.add_left_inj 1).mp hidx, fun _ => hin.distinct, fun _ => hlen⟩
    · exact absurd (hlast.symm.trans hdrop.lastAvail) (lastAvail_succ_ne _)
  · rintro ⟨hidx, hapart, hlen⟩
    refine .inl ⟨head, hhead, hapart htake, ⟨_, ?_, scatter_outside _ _ _, hbytes⟩, ?_, ?_, ?_,
      hlast, hint⟩
    · have htotal : total (s.pieces head frame).1 = (rxHdr ++ frame).length :=
        Nat.le_antisymm (Queue.total_fillPieces_le ..)
          ((length_rxHdr_append frame).trans_le htake.2)
      have hgather := gather_scatter s.mem.bytes (s.pieces head frame).1 (rxHdr ++ frame)
        (hapart htake)
      rw [htotal, List.take_length, List.drop_eq_nil_of_le, List.append_nil] at hgather
      · exact hgather
      · rw [length_gather, htotal]
    · rw [hbytes, ← hidx]
      exact s.rx.usedElem_usedPoke _ head _
    · rw [UInt32.toNat_ofNat']
      exact Nat.mod_eq_of_lt (hlen htake)
    · rw [hbytes, s.rx.usedIdx_usedPoke, hidx]

/-- One that it does not take goes unseen exactly if the stores spare the used index. -/
theorem keeps_iff (hhead : s.rxHead = some head) (htake : ¬s.Takes head frame) :
    ((∃ head, Injected s (s.injectRx frame) frame head) ∨ Dropped s (s.injectRx frame)) ↔
      RxClear s head frame := by
  obtain ⟨hbytes, hlast, hint⟩ := injectRx_keeps hhead htake
  constructor
  · rintro (⟨head', hin⟩ | hdrop)
    · exact absurd (hin.advanced.symm.trans hlast) (lastAvail_succ_ne _)
    · exact ⟨hbytes ▸ hdrop.usedIdx, fun h => absurd h htake, fun h => absurd h htake⟩
  · intro hclear
    exact .inr ⟨hlast, by rw [hbytes, hclear.usedIdx], hint⟩

/-- **All or nothing, exactly when**, for a device whose ready queues have their rings in RAM. -/
theorem injectRx_iff (hok : RingsOk s) :
    ((∃ head, Injected s (s.injectRx frame) frame head) ∨ Dropped s (s.injectRx frame)) ↔
      ∀ head, s.rxHead = some head → RxClear s head frame := by
  cases hhead : s.rxHead with
  | none =>
    have hsame : s.injectRx frame = s.feed frame false := by
      have hfed : (s.feed frame false).rxHead = none := hhead
      unfold injectRx
      simp only [hfed]
    rw [hsame]
    exact ⟨fun _ _ h => (by cases h), fun _ => .inr ⟨rfl, rfl, rfl⟩⟩
  | some head =>
    have hone : (∀ head', some head = some head' → RxClear s head' frame) ↔ RxClear s head frame :=
      ⟨fun h => h head rfl, fun h _ heq => Option.some.inj heq ▸ h⟩
    rw [hone]
    by_cases htake : s.Takes head frame
    · exact takes_iff hok hhead htake
    · exact keeps_iff hhead htake

end Outcomes

/-- **RX injection is all or nothing** in every state a run reaches, whatever the guest's memory
holds, exactly if the stores leave the used index as it is, and the pieces of a packet that the
chain takes do not overlap and its length is a `u32`: `deliver` puts the header and the whole frame
into the chain and completes it with their length, or the driver sees nothing of it. -/
theorem net_rx_all_or_nothing (host : NetHost) (mem : GuestRam) (gw : Option GatewaySocket)
    (tap : Option TapFile) (calls : List Call) (s : VirtioNet)
    (hrun : (fresh mem gw tap).run host calls = done s) (ram : ℕ → UInt8) (frame : List UInt8) :
    ((∃ head, Injected (s.withRam ram) ((s.withRam ram).deliver frame).2 frame head) ∨
        Dropped (s.withRam ram) ((s.withRam ram).deliver frame).2) ↔
      ∀ head, (s.withRam ram).rxHead = some head → RxClear (s.withRam ram) head frame := by
  have hok := (ringsOk_run (ringsOk_fresh mem gw tap) hrun).withRam ram
  rw [← injectRx_iff hok]
  constructor
  · rintro (⟨head, hin⟩ | hdrop)
    · exact .inl ⟨head, hin.posted, hin.distinct, hin.written, hin.completed, hin.exact, hin.pushed,
        hin.advanced, hin.raised⟩
    · exact .inr ⟨hdrop.lastAvail, hdrop.usedIdx, hdrop.interruptStatus⟩
  · rintro (⟨head, hin⟩ | hdrop)
    · exact .inl ⟨head, hin.posted, hin.distinct, hin.written, hin.completed, hin.exact, hin.pushed,
        hin.advanced, hin.raised⟩
    · exact .inr ⟨hdrop.lastAvail, hdrop.usedIdx, hdrop.interruptStatus⟩

/-! ### Two posted chains -/

/-- A device whose driver has set up the RX queue. -/
def sampleNet : VirtioNet :=
  { transport := DeviceKind.net.program sampleRam sampleWrites, mem := sampleRam }

/-- Memory with the chain at descriptor 0 posted: one buffer of `len` bytes, and what `flags`
says, with descriptor 0 as the next. -/
def postedRam (len flags : ℕ) : ℕ → UInt8 :=
  poke (poke (fun _ => 0) 0x40000000
    (leBytes 8 0x40003000 ++ leBytes 4 len ++ leBytes 2 flags ++ leBytes 2 0)) 0x40001002 [1, 0]

theorem sampleNet_run (host : NetHost) :
    (fresh sampleRam none none).run host (sampleWrites.map fun w => ⟨.mmioWrite w, fun _ => 0⟩) =
      done sampleNet := rfl

theorem net_rx_all_or_nothing_one :
    ((sampleNet.withRam (postedRam 64 2)).deliver [1, 2]).2.rx.lastAvail = 1 ∧
      ((∃ head, Injected (sampleNet.withRam (postedRam 64 2))
          ((sampleNet.withRam (postedRam 64 2)).deliver [1, 2]).2 [1, 2] head) ∨
        Dropped (sampleNet.withRam (postedRam 64 2))
          ((sampleNet.withRam (postedRam 64 2)).deliver [1, 2]).2) := by
  have hhead : (sampleNet.withRam (postedRam 64 2)).rxHead = some 0 := by decide +kernel
  have hpieces : (sampleNet.withRam (postedRam 64 2)).pieces 0 [1, 2] =
      ([(0x40003000, 14)], true) := by
    decide +kernel
  refine ⟨by decide +kernel,
    (net_rx_all_or_nothing ⟨fun _ => "", fun _ => none⟩ sampleRam none none _
    sampleNet (sampleNet_run _) (postedRam 64 2) [1, 2]).2 ?_⟩
  intro head h
  obtain rfl : head = 0 := Option.some.inj (h.symm.trans hhead)
  refine ⟨by decide +kernel, fun _ => ?_, fun _ => by decide⟩
  rw [hpieces]
  exact List.pairwise_singleton _ _

/-- **The same buffer twice**: the chain's one descriptor is writable, has room for 7 bytes and
is its own successor.  A packet of 14 bytes is completed, and the buffer, which is the only
one, holds its second half. -/
theorem net_rx_same_buffer_twice :
    (∀ seg ∈ writable ((sampleNet.withRam (postedRam 7 3)).rx.chain
        (sampleNet.withRam (postedRam 7 3)).mem 0).1, seg = (0x40003000, 7)) ∧
      ((sampleNet.withRam (postedRam 7 3)).deliver [1, 2]).2.rx.lastAvail = 1 ∧
      sampleNet.rx.usedElem ((sampleNet.withRam (postedRam 7 3)).deliver [1, 2]).2.mem.bytes 0 =
        ⟨0, 14⟩ ∧
      peek ((sampleNet.withRam (postedRam 7 3)).deliver [1, 2]).2.mem.bytes 0x40003000 7 =
        [0, 0, 0, 1, 0, 1, 2] := by
  have hone : (writable ((sampleNet.withRam (postedRam 7 3)).rx.chain
      (sampleNet.withRam (postedRam 7 3)).mem 0).1).all (· == (0x40003000, 7)) = true := by
    decide +kernel
  refine ⟨?_, by decide +kernel, by decide +kernel, by decide +kernel⟩
  intro seg hseg
  exact eq_of_beq (List.all_eq_true.mp hone seg hseg)

end VirtioNet
