/-
virtio-net transmit is a FIFO of frames.

On a device that relays to a gateway, the TX loop takes each head published, reads the frame
of its chain and writes it to the socket behind its length, and completes the head.  The
used ring is all of guest memory that it writes, so with chains clear of the used ring each
head is read as the driver left it.

* `sent` — what one head puts on the stream, as its chain says;
* `serveTx_sent` — the loop over the heads published, in order;
* `net_tx_fifo` — a sequence of notifies, across the wrap of the index.
-/
import HviVmm.Net

open ByteCodec ByteStore Checked

/-! ### What a head puts on the stream -/

namespace Queue

variable (q : Queue) (mem : GuestRam)

/-- The chain at `head` carries a frame: it does not break off within queue-size descriptors, and
its readable buffers are in RAM and hold a header and 1 to `maxFrameLen` bytes. -/
def carriesFrame (head : UInt16) : Bool :=
  (q.chain mem head).2 != .broken &&
    (readable (q.chain mem head).1).all (fun seg => mem.contains seg.1 seg.2.toNat) &&
    decide (netHdrLen < totalLen (readable (q.chain mem head).1)) &&
    decide (totalLen (readable (q.chain mem head).1) ≤ maxTxFrame)

/-- The readable buffers without the header. -/
def txFrame (head : UInt16) : List UInt8 :=
  (gather mem.bytes (spans (readable (q.chain mem head).1))).drop netHdrLen

/-- The length and the frame, or nothing. -/
def sent (head : UInt16) : List UInt8 :=
  if q.carriesFrame mem head then relayToGateway (q.txFrame mem head) else []

/-- The heads published since the queue was last served. -/
def txHeads : List UInt16 :=
  if q.isReady then
    match q.pending mem with
    | none => []
    | some n => q.published mem.bytes n.toNat q.lastAvail
  else []

/-- The queue once they are served. -/
def afterTx : Queue := q.setLastAvail (q.lastAvail + UInt16.ofNat (q.txHeads mem).length)

/-- The used ring overlaps neither the other rings nor what the heads' chains read. -/
structure TxClear (heads : List UInt16) : Prop where
  descTable : Apart q.usedRing q.descTable
  availRing : Apart q.usedRing q.availRing
  buffers : ∀ head ∈ heads, ∀ b ∈ spans (readable (q.chain mem head).1), Apart q.usedRing b

end Queue

namespace Queue

variable {q : Queue} {mem mem' : GuestRam} {heads : List UInt16}

theorem length_published (q : Queue) (m : ℕ → UInt8) (n : ℕ) (last : UInt16) :
    (q.published m n last).length = n := by
  induction n generalizing last with
  | zero => rfl
  | succ n ih => rw [published, List.length_cons, ih]

theorem sent_of_carries {head : UInt16} (h : q.carriesFrame mem head = true) :
    q.sent mem head =
      beBytes 4 (UInt32.ofNat (q.txFrame mem head).length).toNat ++ q.txFrame mem head := by
  rw [sent, if_pos h, relayToGateway]

/-- What a head puts on the stream depends on the descriptor table and the chain's buffers. -/
theorem sent_congr (hok : q.ReadyOk mem) (hready : q.isReady = true)
    (hregions : mem'.regions = mem.regions)
    (ha : AgreeOff (Range q.usedRing) mem.bytes mem'.bytes) {head : UInt16}
    (hclear : q.TxClear mem heads) (hhead : head ∈ heads) :
    q.sent mem' head = q.sent mem head := by
  have hdesc := readDesc_congr hok hready hregions ha fun x hx hu => hclear.descTable x hu hx
  have hchain : q.chain mem' head = q.chain mem head := walk_congr hdesc _ _
  have hgather : gather mem'.bytes (spans (readable (q.chain mem head).1)) =
      gather mem.bytes (spans (readable (q.chain mem head).1)) := by
    refine ha.gather ?_
    rintro x ⟨b, hb, hx⟩ hu
    exact hclear.buffers head hhead b hb x hu hx
  have hin : ∀ seg : Seg, mem'.contains seg.1 seg.2.toNat = mem.contains seg.1 seg.2.toNat :=
    fun _ => GuestRam.contains_congr hregions
  have hcarries : q.carriesFrame mem' head = q.carriesFrame mem head := by
    simp only [carriesFrame, hchain, hin]
  have hframe : q.txFrame mem' head = q.txFrame mem head := by
    rw [txFrame, hchain, hgather, txFrame]
  rw [sent, hcarries, hframe, sent]

theorem TxClear.congr (h : q.TxClear mem heads) (hok : q.ReadyOk mem) (hready : q.isReady = true)
    (hregions : mem'.regions = mem.regions)
    (ha : AgreeOff (Range q.usedRing) mem.bytes mem'.bytes) : q.TxClear mem' heads := by
  have hdesc := readDesc_congr hok hready hregions ha fun x hx hu => h.descTable x hu hx
  refine ⟨h.descTable, h.availRing, fun head hhead b hb => h.buffers head hhead b ?_⟩
  have hchain : q.chain mem' head = q.chain mem head := walk_congr hdesc _ _
  rwa [hchain] at hb

end Queue

namespace VirtioNet

variable {s : VirtioNet} {stream : List UInt8}

/-! ### One head -/

section OneHead

variable {s s' : VirtioNet} {head : UInt16} {sock : GatewaySocket} (host : NetHost)

/-- The loop over the chain reads what the chain carries. -/
theorem readTxFrame_eq (s : VirtioNet) (head : UInt16) :
    s.readTxFrame head =
      if s.tx.carriesFrame s.mem head then some (s.tx.txFrame s.mem head) else none := by
  have hloop : ∀ out, s.tx.gatherChain s.mem maxTxFrame s.tx.size.toNat head [] = some out ↔
      (s.tx.chain s.mem head).2 ≠ .broken ∧
        0 + totalLen (readable (s.tx.chain s.mem head).1) ≤ maxTxFrame ∧
        InRam s.mem (readable (s.tx.chain s.mem head).1) ∧
        out = gather s.mem.bytes (spans (readable (s.tx.chain s.mem head).1)) :=
    fun out => Queue.gatherChain_eq_some (Nat.zero_le _)
  have hcarries : s.tx.carriesFrame s.mem head = true ↔
      (((s.tx.chain s.mem head).2 ≠ .broken ∧ InRam s.mem (readable (s.tx.chain s.mem head).1)) ∧
        netHdrLen < totalLen (readable (s.tx.chain s.mem head).1)) ∧
      totalLen (readable (s.tx.chain s.mem head).1) ≤ maxTxFrame := by
    simp only [Queue.carriesFrame, Bool.and_eq_true, bne_iff_ne, List.all_eq_true,
      decide_eq_true_eq, InRam]
  unfold readTxFrame
  split
  · next hnone =>
    rw [if_neg]
    intro h
    obtain ⟨⟨⟨hend, hin⟩, -⟩, hle⟩ := hcarries.mp h
    have hsome := (hloop _).mpr ⟨hend, by omega, hin, rfl⟩
    rw [hnone] at hsome
    cases hsome
  · next buf hbuf =>
    obtain ⟨hend, hle, hin, rfl⟩ := (hloop buf).mp hbuf
    have hlen : (gather s.mem.bytes (spans (readable (s.tx.chain s.mem head).1))).length =
        totalLen (readable (s.tx.chain s.mem head).1) := length_gather _ _
    by_cases hlong : netHdrLen < totalLen (readable (s.tx.chain s.mem head).1)
    · rw [if_neg (by omega), if_pos (hcarries.mpr ⟨⟨⟨hend, hin⟩, hlong⟩, by omega⟩)]
      rfl
    · rw [if_pos (by omega), if_neg fun h => hlong (hcarries.mp h).1.2]

/-- A device that relays to a socket that takes everything. -/
structure Relays (s : VirtioNet) (stream : List UInt8) : Prop where
  gw : s.gw = some ⟨stream, []⟩
  tap : s.tap = none

/-- **One head** puts its bytes on the stream, and touches nothing else of what the loop uses. -/
theorem sendHead_sent {stream : List UInt8} (h : Relays s stream) (head : UInt16) :
    ∃ s', s.sendHead host head = done s' ∧ Relays s' (stream ++ s.tx.sent s.mem head) ∧
      s'.transport = s.transport ∧ s'.mem = s.mem := by
  rw [sendHead, readTxFrame_eq]
  by_cases hcarries : s.tx.carriesFrame s.mem head = true
  · rw [Queue.sent_of_carries hcarries]
    simp only [hcarries, if_true]
    obtain ⟨flows, hflows⟩ := observeTx_value (s.tx.txFrame s.mem head)
    have htap : (s.feed (s.tx.txFrame s.mem head) true).tap.isSome = false := by
      rw [feed, h.tap]
      rfl
    have hgw : (s.feed (s.tx.txFrame s.mem head) true).gw = some ⟨stream, []⟩ := h.gw
    simp only [transmit, htap, hgw, hflows, done_bind, pure_eq, Option.isSome_some, if_true,
      Bool.false_eq_true, if_false, relayToGateway, GatewaySocket.writeAll]
    refine ⟨_, rfl, ⟨?_, h.tap⟩, rfl, rfl⟩
    simp only [List.append_assoc]
  · simp only [Queue.sent, hcarries, Bool.false_eq_true, if_false]
    rw [List.append_nil]
    exact ⟨s, rfl, h, rfl, rfl⟩

end OneHead

/-! ### The loop -/

/-- What the loop over the `n` heads from `last` on leaves behind. -/
structure LoopSent (s : VirtioNet) (stream : List UInt8) (n : ℕ) (last : UInt16)
    (r : UInt16 × Bool × VirtioNet) : Prop where
  relays : Relays r.2.2 (stream ++ (s.tx.published s.mem.bytes n last).flatMap (s.tx.sent s.mem))
  transport : r.2.2.transport = s.transport
  regions : r.2.2.mem.regions = s.mem.regions
  next : r.1 = last + UInt16.ofNat n
  idx : s.tx.usedIdx r.2.2.mem.bytes = s.tx.usedIdx s.mem.bytes + UInt16.ofNat n
  elems : s.tx.usedElems r.2.2.mem.bytes n (s.tx.usedIdx s.mem.bytes) =
    (s.tx.published s.mem.bytes n last).map fun head => ⟨head.toUInt32, 0⟩
  frame : AgreeOff (Range s.tx.usedIdxField ∪ s.tx.usedSlots (s.tx.usedIdx s.mem.bytes) n)
    s.mem.bytes r.2.2.mem.bytes

/-- **The loop over the heads published** puts what each carries on the stream, in order, and
completes each.  The induction is on how many are left; a completion is clear of the chains
and the rings that are still to be read, and of the slots that are still to be filled. -/
theorem serveTx_sent (host : NetHost) (n : ℕ) (last : UInt16) (serviced : Bool)
    (hrelays : Relays s stream) (hok : s.tx.ReadyOk s.mem) (hready : s.tx.isReady = true)
    (hn : n ≤ s.tx.size.toNat) (hclear : s.tx.TxClear s.mem (s.tx.published s.mem.bytes n last)) :
    ∃ r, serveTx host n last serviced s = done r ∧ LoopSent s stream n last r := by
  induction n generalizing last serviced s stream with
  | zero =>
    refine ⟨_, rfl, ⟨hrelays.gw.trans ?_, hrelays.tap⟩, rfl, rfl, ?_, ?_, rfl, AgreeOff.refl _ _⟩
    · rw [Queue.published, List.flatMap_nil, List.append_nil]
    · exact (UInt16.add_zero last).symm
    · exact (UInt16.add_zero _).symm
  | succ n ih =>
    obtain ⟨slot, hslot, hread⟩ := Queue.availEntry_read hok hready last
    have hhead : (s.tx.availSlot last >>= s.mem.readU16) =
        some (s.tx.availEntry s.mem.bytes last) := by
      rw [hslot]
      exact hread
    obtain ⟨s₁, hs₁, hrelays₁, htransport₁, hmem₁⟩ :=
      sendHead_sent host hrelays (s.tx.availEntry s.mem.bytes last)
    rw [serveTx, hhead]
    simp only [hs₁, done_bind]
    generalize hh : s.tx.availEntry s.mem.bytes last = head at *
    have htx₁ : s₁.tx = s.tx := congrArg (fun t : Transport 2 => t.queues 1) htransport₁
    -- the completion
    have hpush : (s₁.completeTx head).mem =
        { s.mem with bytes := s.tx.usedPoke s.mem.bytes head 0 } := by
      rw [completeTx, htx₁, hmem₁]
      exact Queue.pushUsed_eq hok hready head 0
    have hbytes : (s₁.completeTx head).mem.bytes = s.tx.usedPoke s.mem.bytes head 0 := by rw [hpush]
    have hregions : (s₁.completeTx head).mem.regions = s.mem.regions := by rw [hpush]
    have hpoke := s.tx.agreeOff_usedPoke s.mem.bytes head 0
    rw [← hbytes] at hpoke
    have hring : AgreeOff (Range s.tx.usedRing) s.mem.bytes (s₁.completeTx head).mem.bytes := by
      refine hpoke.mono ?_
      rintro x (hf | hs)
      · exact s.tx.usedIdxField_subset hf
      · exact Queue.usedSlot_subset hready _ hs
    -- what is left is as the driver published it
    have hpub : s.tx.published (s₁.completeTx head).mem.bytes n (last + 1) =
        s.tx.published s.mem.bytes n (last + 1) := by
      refine Queue.published_congr (Queue.availEntry_congr hready hring ?_) n (last + 1)
      exact fun x hx hu => hclear.availRing x hu hx
    have hsent : ∀ h ∈ s.tx.published s.mem.bytes n (last + 1),
        s.tx.sent (s₁.completeTx head).mem h = s.tx.sent s.mem h := by
      intro h hmem
      refine Queue.sent_congr hok hready hregions hring hclear ?_
      rw [Queue.published]
      exact List.mem_cons_of_mem _ hmem
    have htx₂ : (s₁.completeTx head).tx = s.tx := htx₁
    have hclear₂ : s.tx.TxClear (s₁.completeTx head).mem
        (s.tx.published s.mem.bytes n (last + 1)) := by
      refine Queue.TxClear.congr ⟨hclear.descTable, hclear.availRing, fun h hmem => ?_⟩ hok hready
        hregions hring
      exact hclear.buffers h (by rw [Queue.published]; exact List.mem_cons_of_mem _ hmem)
    obtain ⟨r, hr, hloop⟩ := ih (last + 1) true (s := s₁.completeTx head)
      ⟨hrelays₁.gw, hrelays₁.tap⟩ (by rw [htx₂]; exact hok.congr hregions)
        (by rw [htx₂]; exact hready)
      (by rw [htx₂]; omega) (by rw [htx₂, hpub]; exact hclear₂)
    refine ⟨r, hr, ?_⟩
    obtain ⟨relays, transport, regions, next, idx, elems, frame⟩ := hloop
    have hidx : s.tx.usedIdx (s₁.completeTx head).mem.bytes = s.tx.usedIdx s.mem.bytes + 1 := by
      rw [hbytes]
      exact s.tx.usedIdx_usedPoke _ head 0
    rw [htx₂, hpub] at relays elems
    rw [htx₂, hidx] at idx frame
    rw [hidx] at elems
    -- the loop fills other slots than this head's
    have hslotClear : ∀ x ∈ Range (s.tx.usedSlot (s.tx.usedIdx s.mem.bytes)),
        x ∉ Range s.tx.usedIdxField ∪ s.tx.usedSlots (s.tx.usedIdx s.mem.bytes + 1) n := by
      rintro x hx (hf | hs)
      · exact s.tx.usedIdxField_clear _ x hx hf
      · exact Queue.usedSlots_clear hready _ (by omega) x hx hs
    have hpublished : s.tx.published s.mem.bytes (n + 1) last =
        head :: s.tx.published s.mem.bytes n (last + 1) := by
      rw [Queue.published, hh]
    refine ⟨?_, transport.trans htransport₁, regions.trans hregions, ?_, ?_, ?_, ?_⟩
    · rw [hpublished, List.flatMap_cons, ← List.append_assoc]
      rwa [List.flatMap_congr hsent] at relays
    · rw [next, Queue.ofNat_succ_add]
    · rw [idx, Queue.ofNat_succ_add]
    · rw [Queue.usedElems, elems, Queue.usedElem_congr frame hslotClear, hpublished, List.map_cons,
        hbytes, s.tx.usedElem_usedPoke]
    · have hfirst : AgreeOff (Range s.tx.usedIdxField ∪
          s.tx.usedSlots (s.tx.usedIdx s.mem.bytes) (n + 1)) s.mem.bytes
          (s₁.completeTx head).mem.bytes := by
        refine hpoke.mono ?_
        rintro x (hf | hs)
        · exact .inl hf
        · rw [Queue.usedSlots_succ]
          exact .inr (.inl hs)
      refine hfirst.trans (frame.mono ?_)
      rintro x (hf | hs)
      · exact .inl hf
      · rw [Queue.usedSlots_succ]
        exact .inr (.inr hs)

/-! ### One notify -/

/-- Every head published was completed, once, with length 0. -/
structure TxServed (s s' : VirtioNet) : Prop where
  completed : s.tx.usedElems s'.mem.bytes (s.tx.txHeads s.mem).length (s.tx.usedIdx s.mem.bytes) =
    (s.tx.txHeads s.mem).map fun head => ⟨head.toUInt32, 0⟩
  pushed : s.tx.usedIdx s'.mem.bytes =
    s.tx.usedIdx s.mem.bytes + UInt16.ofNat (s.tx.txHeads s.mem).length
  advanced : s'.tx = s.tx.afterTx s.mem

theorem TxServed.idle (h : s.tx.txHeads s.mem = []) : TxServed s s := by
  refine ⟨?_, ?_, ?_⟩
  · rw [h]
    rfl
  · rw [h]
    exact (UInt16.add_zero _).symm
  · rw [Queue.afterTx, h, List.length_nil]
    have hsame : s.tx.lastAvail + UInt16.ofNat 0 = s.tx.lastAvail := UInt16.add_zero _
    rw [hsame]
    rfl

theorem processTx_sent (host : NetHost) (hrelays : Relays s stream) (hok : RingsOk s)
    (hclear : s.tx.TxClear s.mem (s.tx.txHeads s.mem)) :
    ∃ s', s.processTx host = done s' ∧
      Relays s' (stream ++ (s.tx.txHeads s.mem).flatMap (s.tx.sent s.mem)) ∧ TxServed s s' ∧
      s'.mem.regions = s.mem.regions := by
  unfold processTx
  by_cases hready : s.tx.isReady = true
  · rw [if_pos hready]
    cases hpending : s.tx.pending s.mem with
    | none =>
      have hnone : s.tx.txHeads s.mem = [] := by rw [Queue.txHeads, if_pos hready, hpending]
      refine ⟨s, rfl, ?_, .idle hnone, rfl⟩
      rw [hnone, List.flatMap_nil, List.append_nil]
      exact hrelays
    | some n =>
      have hheads : s.tx.txHeads s.mem = s.tx.published s.mem.bytes n.toNat s.tx.lastAvail := by
        rw [Queue.txHeads, if_pos hready, hpending]
      have hn : n.toNat ≤ s.tx.size.toNat := by
        simp only [Queue.pending, Option.bind_eq_bind, Option.bind_eq_some_iff] at hpending
        obtain ⟨idx, -, hpending⟩ := hpending
        split at hpending
        · next hle =>
          cases hpending
          exact UInt16.le_iff_toNat_le.mp hle
        · cases hpending
      rw [hheads] at hclear
      obtain ⟨⟨last, serviced, s₁⟩, hloop, hsent⟩ :=
        serveTx_sent host n.toNat s.tx.lastAvail false hrelays (hok 1) hready hn hclear
      obtain ⟨relays, transport, regions, next, idx, elems, -⟩ := hsent
      have hlen : (s.tx.txHeads s.mem).length = n.toNat := by
        rw [hheads, Queue.length_published]
      -- the used ring is the loop's; the queue is stored with how far the loop came
      have hdone : ∀ s', s'.mem = s₁.mem → s'.tx = s₁.tx.setLastAvail last → TxServed s s' := by
        intro s' hmem htx
        have htx₁ : s₁.tx = s.tx := congrArg (fun t : Transport 2 => t.queues 1) transport
        refine ⟨?_, ?_, ?_⟩
        · rw [hlen, hmem, hheads]
          exact elems
        · rw [hlen, hmem]
          exact idx
        · rw [htx, htx₁, Queue.afterTx, hlen, ← next]
      simp only [hloop, done_bind, pure_eq]
      cases serviced with
      | true => exact ⟨_, rfl, hheads ▸ ⟨relays.gw, relays.tap⟩, hdone _ rfl rfl, regions⟩
      | false => exact ⟨_, rfl, hheads ▸ ⟨relays.gw, relays.tap⟩, hdone _ rfl rfl, regions⟩
  · rw [if_neg hready]
    have hnone : s.tx.txHeads s.mem = [] := by rw [Queue.txHeads, if_neg hready]
    refine ⟨s, rfl, ?_, .idle hnone, rfl⟩
    rw [hnone, List.flatMap_nil, List.append_nil]
    exact hrelays

/-! ### Sequences of notifies -/

/-- The driver wrote its memory and notifies the TX queue. -/
def notifyTx (ram : ℕ → UInt8) : Call := ⟨.mmioWrite (Reg.queueNotify.offset, 1), ram⟩

theorem notify_sent (host : NetHost) (hrelays : Relays s stream) (hok : RingsOk s) {ram : ℕ → UInt8}
    (hclear : s.tx.TxClear { s.mem with bytes := ram } (s.tx.txHeads { s.mem with bytes := ram })) :
    ∃ s', s.step host (notifyTx ram) = done s' ∧
      Relays s' (stream ++ (s.tx.txHeads { s.mem with bytes := ram }).flatMap
        (s.tx.sent { s.mem with bytes := ram })) ∧
      TxServed (s.withRam ram) s' ∧ s'.mem.regions = s.mem.regions :=
  processTx_sent host (s := s.withRam ram) ⟨hrelays.gw, hrelays.tap⟩ (hok.withRam ram) hclear

/-- The queue and the memory at each notify. -/
def txRounds (q : Queue) (mem : GuestRam) : List (ℕ → UInt8) → List (Queue × GuestRam)
  | [] => []
  | ram :: rams =>
    (q, { mem with bytes := ram }) :: txRounds (q.afterTx { mem with bytes := ram }) mem rams

/-- The stream: at each notify, head by head in avail order. -/
def txStream (rounds : List (Queue × GuestRam)) : List UInt8 :=
  rounds.flatMap fun r => (r.1.txHeads r.2).flatMap (r.1.sent r.2)

theorem withRam_mem {mem mem' : GuestRam} (h : mem'.regions = mem.regions) (ram : ℕ → UInt8) :
    ({ mem' with bytes := ram } : GuestRam) = { mem with bytes := ram } := by
  cases mem
  cases mem'
  cases h
  rfl

theorem txRounds_congr {mem mem' : GuestRam} (h : mem'.regions = mem.regions) (q : Queue)
    (rams : List (ℕ → UInt8)) : txRounds q mem' rams = txRounds q mem rams := by
  induction rams generalizing q with
  | nil => rfl
  | cons ram rams ih => rw [txRounds, txRounds, withRam_mem h, ih]

/-- **The notifies, one after the other.**  The induction is on the notifies; each leaves the
queue where the next one of `txRounds` starts. -/
theorem notifies_sent (host : NetHost) (hrelays : Relays s stream) (hok : RingsOk s)
    {rams : List (ℕ → UInt8)}
    (hclear : ∀ r ∈ txRounds s.tx s.mem rams, r.1.TxClear r.2 (r.1.txHeads r.2)) :
    (∃ s', s.run host (rams.map notifyTx) = done s' ∧
      Relays s' (stream ++ txStream (txRounds s.tx s.mem rams))) ∧
    ∀ before ram after, rams = before ++ ram :: after →
      ∃ s₁ s₂, s.run host (before.map notifyTx) = done s₁ ∧
        s₁.step host (notifyTx ram) = done s₂ ∧ TxServed (s₁.withRam ram) s₂ := by
  induction rams generalizing s stream with
  | nil =>
    refine ⟨⟨s, rfl, ?_⟩, ?_⟩
    · rw [txRounds, txStream, List.flatMap_nil, List.append_nil]
      exact hrelays
    · intro before ram after heq
      simp at heq
  | cons ram rams ih =>
    have hfirst : s.tx.TxClear { s.mem with bytes := ram }
        (s.tx.txHeads { s.mem with bytes := ram }) := hclear _ (List.mem_cons_self ..)
    obtain ⟨s₁, hs₁, hrelays₁, hserved, hregions⟩ := notify_sent host hrelays hok hfirst
    have hrounds : txRounds s₁.tx s₁.mem rams =
        txRounds (s.tx.afterTx { s.mem with bytes := ram }) s.mem rams := by
      rw [txRounds_congr hregions, hserved.advanced]
      rfl
    have hclear₁ : ∀ r ∈ txRounds s₁.tx s₁.mem rams, r.1.TxClear r.2 (r.1.txHeads r.2) := by
      intro r hr
      rw [hrounds] at hr
      exact hclear r (List.mem_cons_of_mem _ hr)
    obtain ⟨⟨s', hs', hrelays'⟩, heach⟩ := ih hrelays₁ (exec_ringsOk (hok.withRam ram) hs₁) hclear₁
    have hrun : ∀ calls, s.run host (notifyTx ram :: calls) = s₁.run host calls := by
      intro calls
      rw [run, List.foldlM_cons, hs₁, done_bind]
      rfl
    refine ⟨⟨s', ?_, ?_⟩, ?_⟩
    · rw [List.map_cons, hrun]
      exact hs'
    · rw [hrounds, List.append_assoc] at hrelays'
      exact hrelays'
    · intro before ram' after heq
      cases before with
      | nil =>
        cases heq
        exact ⟨s, s₁, rfl, hs₁, hserved⟩
      | cons first before =>
        cases heq
        obtain ⟨s₂, s₃, hs₂, hs₃, hdone⟩ := heach before ram' after rfl
        refine ⟨s₂, s₃, ?_, hs₃, hdone⟩
        rw [List.map_cons, hrun]
        exact hs₂

/-! ### Runs -/

section Runs

variable {s s' : VirtioNet} {host : NetHost}
variable {stream : List UInt8}

theorem injectRx_relays (h : Relays s stream) (frame : List UInt8) :
    Relays (s.injectRx frame) stream := by
  unfold injectRx
  simp only
  split
  · exact ⟨h.gw, h.tap⟩
  · split
    · exact ⟨h.gw, h.tap⟩
    · exact ⟨h.gw, h.tap⟩

theorem serveTx_relays {pending : ℕ} {last : UInt16} {serviced : Bool}
    {r : UInt16 × Bool × VirtioNet} (hrelays : Relays s stream)
    (h : serveTx host pending last serviced s = done r) : ∃ stream', Relays r.2.2 stream' := by
  induction pending generalizing last serviced s stream with
  | zero =>
    cases h
    exact ⟨stream, hrelays⟩
  | succ pending ih =>
    rw [serveTx] at h
    split at h
    · cases h
      exact ⟨stream, hrelays⟩
    · next head _ =>
      obtain ⟨s₁, hs₁, h⟩ := bind_eq_done.mp h
      obtain ⟨s₂, hs₂, hrelays₂, -, -⟩ := sendHead_sent host hrelays head
      rw [hs₁] at hs₂
      cases hs₂
      exact ih (s := s₁.completeTx head) ⟨hrelays₂.gw, hrelays₂.tap⟩ h

theorem exec_relays {op : Op} (hrelays : Relays s stream) (h : s.exec host op = done s') :
    ∃ stream', Relays s' stream' := by
  cases op with
  | mmioWrite w =>
    simp only [exec, mmioWrite] at h
    split at h
    · cases h
      exact ⟨stream, hrelays⟩
    · split at h
      · unfold processTx at h
        split at h
        · split at h
          · cases h
            exact ⟨stream, hrelays⟩
          · obtain ⟨⟨last, serviced, s₁⟩, hs₁, h⟩ := bind_eq_done.mp h
            obtain ⟨stream', hrelays'⟩ := serveTx_relays hrelays hs₁
            cases h
            refine ⟨stream', ?_⟩
            split <;> exact ⟨hrelays'.gw, hrelays'.tap⟩
        · cases h
          exact ⟨stream, hrelays⟩
      · cases h
        exact ⟨stream, hrelays⟩
    · cases h
      exact ⟨stream, hrelays.gw, hrelays.tap⟩
  | deliver frame =>
    cases h
    have hin := injectRx_relays hrelays frame
    exact ⟨stream, hin.gw, hin.tap⟩
  | setMac _ | setIoSink _ | takeEvents | takeFedSink =>
    cases h
    exact ⟨stream, hrelays.gw, hrelays.tap⟩

/-- A gateway that takes everything goes on doing so. -/
theorem run_relays {calls : List Call} (hrelays : Relays s stream)
    (h : s.run host calls = done s') : ∃ stream', Relays s' stream' := by
  induction calls generalizing s stream with
  | nil =>
    cases h
    exact ⟨stream, hrelays⟩
  | cons call calls ih =>
    rw [run, List.foldlM_cons] at h
    obtain ⟨s₁, hs₁, h⟩ := bind_eq_done.mp h
    obtain ⟨stream₁, hrelays₁⟩ :=
      exec_relays (s := s.withRam call.ram) ⟨hrelays.gw, hrelays.tap⟩ hs₁
    exact ih hrelays₁ h

end Runs

/-- **Transmit is a FIFO of frames.**  Take a device that relays to a gateway whose socket takes
everything, in any state a run reaches, and any sequence of TX notifies with the used ring
clear of the other rings and of the buffers the published chains read.  The socket gets, in
avail order, the length and the frame of each chain that carries one, and nothing for any
other; and at each notify every head published is completed once, with length 0. -/
theorem net_tx_fifo (host : NetHost) (mem : GuestRam) (calls : List Call) (s : VirtioNet)
    (hrun : (fresh mem (some {}) none).run host calls = done s) (rams : List (ℕ → UInt8))
    (hclear : ∀ r ∈ txRounds s.tx s.mem rams, r.1.TxClear r.2 (r.1.txHeads r.2)) :
    ∃ taken, s.gw = some ⟨taken, []⟩ ∧
      (∃ s', s.run host (rams.map notifyTx) = done s' ∧
        s'.gw = some ⟨taken ++ txStream (txRounds s.tx s.mem rams), []⟩) ∧
      ∀ before ram after, rams = before ++ ram :: after →
        ∃ s₁ s₂, s.run host (before.map notifyTx) = done s₁ ∧
          s₁.step host (notifyTx ram) = done s₂ ∧ TxServed (s₁.withRam ram) s₂ := by
  have hok := ringsOk_run (ringsOk_fresh mem (some {}) none) hrun
  have hfresh : Relays (fresh mem (some {}) none) [] := ⟨rfl, rfl⟩
  obtain ⟨taken, hrelays⟩ := run_relays hfresh hrun
  obtain ⟨⟨s', hs', hrelays'⟩, heach⟩ := notifies_sent host hrelays hok hclear
  exact ⟨taken, hrelays.gw, ⟨s', hs', hrelays'.gw⟩, heach⟩

/-- The writes of a driver that sets up the TX queue with eight entries. -/
def txWrites : List (UInt64 × UInt64) :=
  [(0x30, 1), (0x38, 8), (0x80, 0x40000000), (0x84, 0), (0x90, 0x40001000), (0x94, 0),
    (0xa0, 0x40002000), (0xa4, 0), (0x44, 1)]

/-- A device that relays to a gateway, with its TX queue set up. -/
def relayNet : VirtioNet :=
  { transport := DeviceKind.net.program sampleRam txWrites, gw := some {}, mem := sampleRam }

theorem relayNet_run (host : NetHost) :
    (fresh sampleRam (some {}) none).run host (txWrites.map fun w => ⟨.mmioWrite w, fun _ => 0⟩) =
      done relayNet := rfl

/-- Memory with the chain at descriptor 0 published: one buffer of `len` bytes, which ends with
7 and 9, and what `flags` says, with descriptor 0 as the next. -/
def txRam (len flags : ℕ) : ℕ → UInt8 :=
  poke (poke (poke (fun _ => 0) 0x40000000
    (leBytes 8 0x40003000 ++ leBytes 4 len ++ leBytes 2 flags ++ leBytes 2 0)) 0x40001002 [1, 0])
    (0x40003000 + len - 2) [7, 9]

theorem relayNet_clear {len flags : ℕ}
    (hheads : relayNet.tx.txHeads { relayNet.mem with bytes := txRam len flags } = [0])
    (hchain : ∀ b ∈ spans (readable
      (relayNet.tx.chain { relayNet.mem with bytes := txRam len flags } 0).1), b =
        (0x40003000, len)) :
    relayNet.tx.TxClear { relayNet.mem with bytes := txRam len flags }
      (relayNet.tx.txHeads { relayNet.mem with bytes := txRam len flags }) := by
  refine ⟨apart_of_le (by decide +kernel), apart_of_le (by decide +kernel), ?_⟩
  intro head hhead b hb
  rw [hheads] at hhead
  obtain rfl := List.mem_singleton.mp hhead
  obtain rfl := hchain b hb
  have hend : relayNet.tx.usedRing.1 + relayNet.tx.usedRing.2 ≤ 0x40003000 := by decide +kernel
  exact apart_of_le (.inl hend)

theorem net_tx_fifo_one :
    txStream (txRounds relayNet.tx relayNet.mem [txRam 14 0]) = [0, 0, 0, 2, 7, 9] ∧
      ∃ taken, relayNet.gw = some ⟨taken, []⟩ ∧
        (∃ s', relayNet.run ⟨fun _ => "", fun _ => none⟩ ([txRam 14 0].map notifyTx) = done s' ∧
          s'.gw = some ⟨taken ++ txStream (txRounds relayNet.tx relayNet.mem [txRam 14 0]),
          []⟩) := by
  have hclear : ∀ r ∈ txRounds relayNet.tx relayNet.mem [txRam 14 0],
      r.1.TxClear r.2 (r.1.txHeads r.2) := by
    intro r hr
    obtain rfl := List.mem_singleton.mp hr
    exact relayNet_clear (by decide +kernel) (by decide +kernel)
  obtain ⟨taken, hgw, hrun, -⟩ := net_tx_fifo _ sampleRam _ relayNet
    (relayNet_run ⟨fun _ => "", fun _ => none⟩) [txRam 14 0] hclear
  exact ⟨by decide +kernel, taken, hgw, hrun⟩

/-- **A chain that never ends is sent**: its one descriptor is readable, holds 7 bytes and is
its own successor.  The ring has eight entries, and a frame of 44 bytes goes out. -/
theorem net_tx_endless_sent :
    (relayNet.tx.chain { relayNet.mem with bytes := txRam 7 1 } 0).2 = .endless ∧
      ∃ s', relayNet.step ⟨fun _ => "", fun _ => none⟩ (notifyTx (txRam 7 1)) = done s' ∧
        s'.gw.map (fun sock => sock.taken.take 4) = some [0, 0, 0, 44] ∧
        s'.gw.map (fun sock => sock.taken.length) = some 48 := by
  have hrelays : Relays relayNet [] := ⟨rfl, rfl⟩
  have hok : RingsOk relayNet := DeviceKind.program_readyOk .net sampleRam txWrites
  have hclear : relayNet.tx.TxClear { relayNet.mem with bytes := txRam 7 1 }
      (relayNet.tx.txHeads { relayNet.mem with bytes := txRam 7 1 }) :=
    relayNet_clear (by decide +kernel) (by decide +kernel)
  obtain ⟨s', hs', hsent, -⟩ := notify_sent ⟨fun _ => "", fun _ => none⟩ hrelays hok hclear
  have hstream : (relayNet.tx.txHeads { relayNet.mem with bytes := txRam 7 1 }).flatMap
      (relayNet.tx.sent { relayNet.mem with bytes := txRam 7 1 }) =
      [0, 0, 0, 44] ++ (relayNet.tx.txFrame { relayNet.mem with bytes := txRam 7 1 } 0) := by
    decide +kernel
  have hlen : (relayNet.tx.txFrame { relayNet.mem with bytes := txRam 7 1 } 0).length = 44 := by
    decide +kernel
  have hgw : s'.gw =
      some ⟨[0, 0, 0, 44] ++ relayNet.tx.txFrame { relayNet.mem with bytes := txRam 7 1 } 0,
      []⟩ := by
    rw [hsent.gw, hstream, List.nil_append]
  refine ⟨by decide +kernel, s', hs', ?_, ?_⟩
  · rw [hgw]
    rfl
  · rw [hgw, Option.map_some, List.length_append, hlen]
    rfl

end VirtioNet
