/-
The loop of `process_queue` refines a disk.

A driver lays out chains whose buffers overlap neither the rings nor each other
(`Layout`).  What serving one of them touches is clear of the rings the device
reads and of every other chain, so the heads are served as if each were alone.

* `serveHead_refines` — one head: the reply reaches the chain's buffers and the
  head the next used slot;
* `serveHeads_refines` — every head published, in order.
-/
import HviVmm.BlkRequest
import HviVmm.Rings
import Mathlib.Data.List.Forall2

open ByteCodec ByteStore

/-! ### What the driver lays out -/

namespace BlkChain

variable {c : BlkChain} {x : ℕ}

/-- The buffers the device may write. -/
def room (c : BlkChain) : List (ℕ × ℕ) := spans (writable c.descs)

theorem room_sublist (c : BlkChain) : c.room.Sublist c.buffers := by
  have hseg : c.descs.map (fun d => span d.seg) = (c.descs.map Desc.seg).map span := by simp
  rw [room, buffers, hseg]
  exact (List.filter_sublist.map Desc.seg).map span

theorem covered_room (h : x ∈ Covered c.room) : x ∈ Covered c.buffers := by
  obtain ⟨s, hs, hx⟩ := h
  exact ⟨s, c.room_sublist.subset hs, hx⟩

theorem covered_outs (h : x ∈ Covered (spans c.outs)) : x ∈ Covered c.buffers := by
  obtain ⟨s, hs, hx⟩ := h
  simp only [spans, outs, readable, List.mem_map, List.mem_filter] at hs
  obtain ⟨_, ⟨d, ⟨hd, -⟩, rfl⟩, rfl⟩ := hs
  exact ⟨span d.seg, List.mem_map.mpr ⟨d, by simp [descs, hd], rfl⟩, hx⟩

theorem covered_ins (h : x ∈ Covered (spans c.ins)) : x ∈ Covered c.buffers := by
  obtain ⟨s, hs, hx⟩ := h
  simp only [spans, ins, writable, List.mem_map, List.mem_filter] at hs
  obtain ⟨_, ⟨d, ⟨hd, -⟩, rfl⟩, rfl⟩ := hs
  exact ⟨span d.seg, List.mem_map.mpr ⟨d, by simp [descs, hd], rfl⟩, hx⟩

theorem covered_header (h : x ∈ Range (span c.header.seg)) : x ∈ Covered c.buffers :=
  ⟨span c.header.seg, List.mem_map.mpr ⟨c.header, by simp [descs], rfl⟩, h⟩

theorem covered_status (h : x ∈ Range (span c.status.seg)) : x ∈ Covered c.buffers :=
  ⟨span c.status.seg, List.mem_map.mpr ⟨c.status, by simp [descs], rfl⟩, h⟩

end BlkChain

/-- The chains' buffers overlap neither the rings nor each other, and the used
ring, which the device writes, overlaps no other ring. -/
structure Layout (q : Queue) (chains : List BlkChain) : Prop where
  apart : (chains.flatMap BlkChain.buffers).Pairwise Apart
  rings : ∀ b ∈ chains.flatMap BlkChain.buffers,
    Apart b q.descTable ∧ Apart b q.availRing ∧ Apart b q.usedRing
  used : Apart q.usedRing q.descTable ∧ Apart q.usedRing q.availRing

namespace Layout

variable {q : Queue} {c : BlkChain} {cs : List BlkChain}

theorem tail (h : Layout q (c :: cs)) : Layout q cs := by
  refine ⟨?_, fun b hb => h.rings b ?_, h.used⟩
  · have := h.apart
    rw [List.flatMap_cons, List.pairwise_append] at this
    exact this.2.1
  · rw [List.flatMap_cons]
    exact List.mem_append_right _ hb

theorem room_apart (h : Layout q (c :: cs)) : c.room.Pairwise Apart := by
  have := h.apart
  rw [List.flatMap_cons, List.pairwise_append] at this
  exact this.1.sublist c.room_sublist

/-- What serving one chain may touch. -/
def touched (q : Queue) (c : BlkChain) : Set ℕ := Range q.usedRing ∪ Covered c.buffers

theorem descTable_clear (h : Layout q (c :: cs)) : ∀ x ∈ Range q.descTable, x ∉ touched q c := by
  rintro x hx (hu | ⟨b, hb, hxb⟩)
  · exact h.used.1 x hu hx
  · exact (h.rings b (by simp [hb])).1 x hxb hx

theorem availRing_clear (h : Layout q (c :: cs)) : ∀ x ∈ Range q.availRing, x ∉ touched q c := by
  rintro x hx (hu | ⟨b, hb, hxb⟩)
  · exact h.used.2 x hu hx
  · exact (h.rings b (by simp [hb])).2.1 x hxb hx

theorem others_clear (h : Layout q (c :: cs)) {c' : BlkChain} (hc' : c' ∈ cs) :
    ∀ x ∈ Covered c'.buffers, x ∉ touched q c := by
  rintro x ⟨b', hb', hx⟩ (hu | ⟨b, hb, hxb⟩)
  · have hmem : b' ∈ (c :: cs).flatMap BlkChain.buffers :=
      List.mem_flatMap.mpr ⟨c', by simp [hc'], hb'⟩
    exact (h.rings b' hmem).2.2 x hx hu
  · have hpair := h.apart
    rw [List.flatMap_cons, List.pairwise_append] at hpair
    exact hpair.2.2 b hb b' (List.mem_flatMap.mpr ⟨c', hc', hb'⟩) x hxb hx

theorem used_clear (h : Layout q (c :: cs)) : ∀ x ∈ Covered c.buffers, x ∉ Range q.usedRing := by
  rintro x ⟨b, hb, hxb⟩ hu
  exact (h.rings b (by simp [hb])).2.2 x hxb hu

end Layout

/-! ### One head -/

/-- The reply reached the chain's buffers: `m` before, `m'` after. -/
structure ChainResult (m m' : ℕ → UInt8) (c : BlkChain) (r : DiskReply) : Prop where
  status : m' c.status.addr.toNat = r.status
  data : gather m' (spans c.ins) = r.data ++ (gather m (spans c.ins)).drop r.data.length

/-- The result depends on the chain's buffers only. -/
theorem ChainResult.congr {m m' n n' : ℕ → UInt8} {c : BlkChain} {r : DiskReply} {A B : Set ℕ}
    (h : ChainResult m m' c r) (hstat : c.status.len = 1) (ha : AgreeOff A n m)
    (hb : AgreeOff B m' n') (hca : ∀ x ∈ Covered c.buffers, x ∉ A)
    (hcb : ∀ x ∈ Covered c.buffers, x ∉ B) : ChainResult n n' c r := by
  have hin : c.status.addr.toNat ∈ Covered c.buffers := by
    refine BlkChain.covered_status ⟨Nat.le_refl _, ?_⟩
    simp [span, Desc.seg, hstat]
  refine ⟨by rw [hb _ (hcb _ hin), h.status], ?_⟩
  rw [hb.gather fun x hx => hcb x (BlkChain.covered_ins hx), h.data,
    ha.gather fun x hx => hca x (BlkChain.covered_ins hx)]

section OneHead

variable {d : VirtioBlk} {k : Disk} {rest : List UInt8} {mem : GuestRam} {head : UInt16}
  {c : BlkChain} {cs : List BlkChain}

theorem room_eq {q : Queue} (hc : c.Laid q mem head) :
    c.room = spans c.ins ++ [span c.status.seg] := by
  rw [BlkChain.room, BlkChain.writable_descs hc]
  simp [spans]

/-- The chain's own stores: the data, then the status byte. -/
theorem chainStore_result {q : Queue} (hc : c.Laid q mem head) (hlay : Layout q (c :: cs))
    (r : DiskReply) (hle : r.data.length ≤ totalLen c.ins) :
    ChainResult mem.bytes
      (poke (scatter mem.bytes (spans c.ins) r.data) c.status.addr.toNat [r.status]) c r ∧
    AgreeOff (Covered c.room) mem.bytes
      (poke (scatter mem.bytes (spans c.ins) r.data) c.status.addr.toNat [r.status]) := by
  have hpair := hlay.room_apart
  rw [room_eq hc, List.pairwise_append] at hpair
  have hpoke :=
    agreeOff_poke (scatter mem.bytes (spans c.ins) r.data) c.status.addr.toNat [r.status]
  have hstat : span c.status.seg = (c.status.addr.toNat, 1) := by
    rw [span, Desc.seg, hc.status.2]
    rfl
  refine ⟨⟨?_, ?_⟩, ?_⟩
  · exact poke_inside (k := 0) (by simp)
  · rw [totalLen] at hle
    rw [hpoke.gather, gather_scatter _ _ _ hpair.1, List.take_of_length_le hle]
    rintro x ⟨s, hs, hx⟩ hx'
    refine hpair.2.2 s hs (span c.status.seg) (by simp) x hx ?_
    rw [hstat]
    exact hx'
  · have hdata : AgreeOff (Covered c.room) mem.bytes (scatter mem.bytes (spans c.ins) r.data) := by
      refine (scatter_outside mem.bytes (spans c.ins) r.data).mono fun x hx => ?_
      rw [room_eq hc]
      obtain ⟨s, hs, hx⟩ := hx
      exact ⟨s, List.mem_append_left _ hs, hx⟩
    refine hdata.trans (hpoke.mono fun x hx => ?_)
    rw [room_eq hc]
    exact ⟨span c.status.seg, by simp, by rw [hstat]; exact hx⟩

/-- What serving one head leaves behind. -/
structure HeadServed (d : VirtioBlk) (mem : GuestRam) (head : UInt16) (c : BlkChain)
    (rest : List UInt8) (a : Disk × DiskReply) (d' : VirtioBlk) (mem' : GuestRam) : Prop where
  holds : d'.Holds a.1 rest
  transport : d'.transport = d.transport
  regions : mem'.regions = mem.regions
  idx : d.queue.usedIdx mem'.bytes = d.queue.usedIdx mem.bytes + 1
  elem : d.queue.usedElem mem'.bytes (d.queue.usedIdx mem.bytes) =
    ⟨head.toUInt32, UInt32.ofNat (a.2.data.length + 1)⟩
  result : ChainResult mem.bytes mem'.bytes c a.2
  frame : AgreeOff (Range d.queue.usedIdxField ∪
    Range (d.queue.usedSlot (d.queue.usedIdx mem.bytes)) ∪ Covered c.room) mem.bytes mem'.bytes

theorem serveHead_refines (h : d.Holds k rest) (hok : d.queue.ReadyOk mem)
    (hready : d.queue.isReady = true) (hc : c.Laid d.queue mem head)
    (hlay : Layout d.queue (c :: cs)) :
    HeadServed d mem head c rest (k.serve (c.request mem.bytes)) (d.handleChain mem head).2.1
      (d.queue.pushUsed (d.handleChain mem head).2.2 head (d.handleChain mem head).1) := by
  have hans := VirtioBlk.handleChain_refines h hc
  have hle : (k.serve (c.request mem.bytes)).2.data.length ≤ totalLen c.ins :=
    Disk.serve_data_le k _ _ _ _
  generalize k.serve (c.request mem.bytes) = a at hans hle ⊢
  obtain ⟨hres, hframe⟩ := chainStore_result hc hlay a.2 hle
  obtain ⟨hholds, htrans, hused, hmem⟩ := hans
  have hregions : (d.handleChain mem head).2.2.regions = mem.regions := by rw [hmem]
  rw [Queue.pushUsed_eq (hok.congr hregions) hready, hmem, hused]
  generalize poke (scatter mem.bytes (spans c.ins) a.2.data) c.status.addr.toNat [a.2.status] = m₁
    at hres hframe ⊢
  -- the chain's stores leave the used ring alone
  have hidx : d.queue.usedIdx m₁ = d.queue.usedIdx mem.bytes :=
    Queue.usedIdx_congr hframe fun x hx hroom =>
      hlay.used_clear x (BlkChain.covered_room hroom) (d.queue.usedIdxField_subset hx)
  have hpush := d.queue.agreeOff_usedPoke m₁ head (UInt32.ofNat (a.2.data.length + 1))
  rw [hidx] at hpush
  have hclear : ∀ x ∈ Covered c.buffers, x ∉ Range d.queue.usedIdxField ∪
      Range (d.queue.usedSlot (d.queue.usedIdx mem.bytes)) := by
    rintro x hx (hf | hs)
    · exact hlay.used_clear x hx (d.queue.usedIdxField_subset hf)
    · exact hlay.used_clear x hx (Queue.usedSlot_subset hready _ hs)
  refine ⟨hholds, htrans, rfl, ?_, ?_, ?_, ?_⟩
  · rw [← hidx]
    exact d.queue.usedIdx_usedPoke m₁ head _
  · rw [← hidx]
    exact d.queue.usedElem_usedPoke m₁ head _
  · exact hres.congr hc.status.2 (AgreeOff.refl ∅ _) hpush (fun _ _ h => h.elim) hclear
  · have hdata := hframe.mono (B := Range d.queue.usedIdxField ∪
      Range (d.queue.usedSlot (d.queue.usedIdx mem.bytes)) ∪ Covered c.room) fun x hx => .inr hx
    exact hdata.trans (hpush.mono fun x hx => .inl hx)

end OneHead

/-! ### The loop -/

/-- What is left of a chain laid out in `mem` once the device has served another:
the descriptor table and the regions are as they were. -/
theorem BlkChain.Laid.congr {q : Queue} {mem mem' : GuestRam} {head : UInt16} {c : BlkChain}
    (h : c.Laid q mem head) (hregions : mem'.regions = mem.regions)
    (hdesc : ∀ d, q.readDesc mem' d = q.readDesc mem d) : c.Laid q mem' head where
  chain := by rw [Queue.chain, Queue.walk_congr hdesc]; exact h.chain
  header := h.header
  status := h.status
  inRam d hd := (GuestRam.contains_congr hregions).trans (h.inRam d hd)

/-- A request depends on the chain's buffers only. -/
theorem BlkChain.request_congr {m m' : ℕ → UInt8} {A : Set ℕ} (ha : AgreeOff A m m')
    {c : BlkChain} (hlen : c.header.len = 16) (hc : ∀ x ∈ Covered c.buffers, x ∉ A) :
    c.request m' = c.request m := by
  have hpart : ∀ o n : ℕ, o + n ≤ 16 →
      peek m' (c.header.addr.toNat + o) n = peek m (c.header.addr.toNat + o) n := by
    intro o n hon
    refine ha.peek fun x hx => hc x (covered_header ?_)
    have h1 := hx.1
    have h2 := hx.2
    simp only [Range, span, Desc.seg, hlen, Set.mem_ofPred_eq, UInt32.reduceToNat] at h1 h2 ⊢
    omega
  have h0 := hpart 0 4 (by decide)
  rw [Nat.add_zero] at h0
  rw [request, request, h0, hpart 8 8 (by decide), ha.gather fun x hx => hc x (covered_outs hx)]

theorem laid_of_mem {q : Queue} {mem : GuestRam} {heads : List UInt16} {chains : List BlkChain}
    (h : List.Forall₂ (BlkChain.Laid q mem) heads chains) :
    ∀ c ∈ chains, ∃ head, c.Laid q mem head := by
  induction h with
  | nil => exact fun c hc => absurd hc (by simp)
  | cons hhead _ ih =>
    intro c hc
    rcases List.mem_cons.mp hc with rfl | hc
    · exact ⟨_, hhead⟩
    · exact ih c hc

theorem forall₂_imp_mem {α β : Type*} {R S : α → β → Prop} {l : List α} {m : List β}
    (h : List.Forall₂ R l m) (hs : ∀ a ∈ l, ∀ b, R a b → S a b) : List.Forall₂ S l m := by
  induction h with
  | nil => exact .nil
  | @cons a b l m hab _ ih =>
    exact .cons (hs a (by simp) b hab) (ih fun a' ha' b' => hs a' (by simp [ha']) b')

/-- The used element for a head and its reply. -/
def completion (head : UInt16) (r : DiskReply) : UsedElem :=
  ⟨head.toUInt32, UInt32.ofNat (r.data.length + 1)⟩

/-- What the loop leaves behind. -/
structure LoopServed (d : VirtioBlk) (mem : GuestRam) (n : ℕ) (last : UInt16)
    (chains : List BlkChain) (rest : List UInt8) (a : Disk × List DiskReply)
    (r : UInt16 × VirtioBlk × GuestRam) : Prop where
  holds : r.2.1.Holds a.1 rest
  transport : r.2.1.transport = d.transport
  regions : r.2.2.regions = mem.regions
  next : r.1 = last + UInt16.ofNat n
  idx : d.queue.usedIdx r.2.2.bytes = d.queue.usedIdx mem.bytes + UInt16.ofNat n
  elems : d.queue.usedElems r.2.2.bytes n (d.queue.usedIdx mem.bytes) =
    List.zipWith completion (d.queue.published mem.bytes n last) a.2
  results : List.Forall₂ (ChainResult mem.bytes r.2.2.bytes) chains a.2
  frame : AgreeOff (Range d.queue.usedIdxField ∪ d.queue.usedSlots (d.queue.usedIdx mem.bytes) n ∪
    Covered (chains.flatMap BlkChain.room)) mem.bytes r.2.2.bytes

theorem touched_of_frame {q : Queue} (hready : q.isReady = true) {c : BlkChain} {m m' : ℕ → UInt8}
    {idx : UInt16}
    (h : AgreeOff (Range q.usedIdxField ∪ Range (q.usedSlot idx) ∪ Covered c.room) m m') :
    AgreeOff (Layout.touched q c) m m' := by
  refine h.mono ?_
  rintro x ((hf | hs) | hroom)
  · exact .inl (q.usedIdxField_subset hf)
  · exact .inl (Queue.usedSlot_subset hready idx hs)
  · exact .inr (BlkChain.covered_room hroom)

/-- **The loop over the published heads** serves them as the disk does, in order.
The induction is on how many are left; what a head's chain touches is clear of the
rings and of the chains still to come. -/
theorem serveHeads_refines (n : ℕ) (last : UInt16) {d : VirtioBlk} {k : Disk} {rest : List UInt8}
    {mem : GuestRam} {chains : List BlkChain} (h : d.Holds k rest) (hok : d.queue.ReadyOk mem)
    (hready : d.queue.isReady = true) (hn : n ≤ d.queue.size.toNat)
    (hlaid : List.Forall₂ (BlkChain.Laid d.queue mem) (d.queue.published mem.bytes n last) chains)
    (hlay : Layout d.queue chains) :
    LoopServed d mem n last chains rest (k.serveAll (chains.map (BlkChain.request mem.bytes)))
      (VirtioBlk.serveHeads n last d mem) := by
  induction n generalizing last d k mem chains with
  | zero =>
    cases hlaid
    refine ⟨h, rfl, rfl, ?_, ?_, rfl, .nil, AgreeOff.refl _ _⟩
    · simp [VirtioBlk.serveHeads]
    · simp [VirtioBlk.serveHeads]
  | succ n ih =>
    rw [Queue.published] at hlaid
    cases hlaid with
    | @cons _ c _ cs hc hlaid' =>
    obtain ⟨slot, hslot, hread⟩ := Queue.availEntry_read hok hready last
    have hone := serveHead_refines h hok hready hc hlay
    simp only [VirtioBlk.serveHeads, hslot, hread, List.map_cons, Disk.serveAll]
    generalize (d.handleChain mem (d.queue.availEntry mem.bytes last)).2.1 = d₁ at hone ⊢
    generalize d.queue.pushUsed (d.handleChain mem (d.queue.availEntry mem.bytes last)).2.2
      (d.queue.availEntry mem.bytes last)
      (d.handleChain mem (d.queue.availEntry mem.bytes last)).1 = mem₁ at hone ⊢
    have hqueue : d₁.queue = d.queue := by rw [VirtioBlk.queue, hone.transport]; rfl
    have htouch := touched_of_frame hready hone.frame
    have hdesc := Queue.readDesc_congr hok hready hone.regions htouch hlay.descTable_clear
    have hpub : d.queue.published mem₁.bytes n (last + 1) =
        d.queue.published mem.bytes n (last + 1) :=
      Queue.published_congr (Queue.availEntry_congr hready htouch hlay.availRing_clear) n (last + 1)
    have hreq : cs.map (BlkChain.request mem₁.bytes) = cs.map (BlkChain.request mem.bytes) := by
      refine List.map_congr_left fun c' hc' => ?_
      obtain ⟨_, hl⟩ := laid_of_mem hlaid' c' hc'
      exact BlkChain.request_congr htouch hl.header.2 (hlay.others_clear hc')
    have hready₁ : d₁.queue.isReady = true := by rw [hqueue]; exact hready
    have hok₁ : d₁.queue.ReadyOk mem₁ := by rw [hqueue]; exact hok.congr hone.regions
    have hn₁ : n ≤ d₁.queue.size.toNat := by rw [hqueue]; omega
    have hlaid₁ : List.Forall₂ (BlkChain.Laid d₁.queue mem₁)
        (d₁.queue.published mem₁.bytes n (last + 1)) cs := by
      rw [hqueue, hpub]
      exact hlaid'.imp fun _ _ hl => hl.congr hone.regions hdesc
    have hlay₁ : Layout d₁.queue cs := by rw [hqueue]; exact hlay.tail
    have hloop := ih (last + 1) hone.holds hok₁ hready₁ hn₁ hlaid₁ hlay₁
    rw [hreq] at hloop
    generalize VirtioBlk.serveHeads n (last + 1) d₁ mem₁ = r at hloop ⊢
    generalize Disk.serveAll _ _ = b at hloop ⊢
    generalize k.serve (c.request mem.bytes) = a at hone ⊢
    obtain ⟨holds, transport, regions, next, idx, elems, results, frame⟩ := hloop
    rw [hqueue, hone.idx] at idx elems frame
    rw [hpub] at elems
    -- what the rest of the loop touches is clear of this chain and of its slot
    have hclear : ∀ x ∈ Covered c.buffers, x ∉ Range d.queue.usedIdxField ∪
        d.queue.usedSlots (d.queue.usedIdx mem.bytes + 1) n ∪
        Covered (cs.flatMap BlkChain.room) := by
      rintro x hx ((hf | ⟨i, -, hs⟩) | ⟨b', hb', hxb⟩)
      · exact hlay.used_clear x hx (d.queue.usedIdxField_subset hf)
      · exact hlay.used_clear x hx (Queue.usedSlot_subset hready _ hs)
      · obtain ⟨c', hc', hb'⟩ := List.mem_flatMap.mp hb'
        exact hlay.others_clear hc' x (BlkChain.covered_room ⟨b', hb', hxb⟩) (.inr hx)
    have hslotClear : ∀ x ∈ Range (d.queue.usedSlot (d.queue.usedIdx mem.bytes)),
        x ∉ Range d.queue.usedIdxField ∪
          d.queue.usedSlots (d.queue.usedIdx mem.bytes + 1) n ∪
          Covered (cs.flatMap BlkChain.room) := by
      rintro x hx ((hf | hs) | ⟨b', hb', hxb⟩)
      · exact d.queue.usedIdxField_clear _ x hx hf
      · exact Queue.usedSlots_clear hready _ (by omega) x hx hs
      · obtain ⟨c', hc', hb'⟩ := List.mem_flatMap.mp hb'
        exact hlay.others_clear hc' x (BlkChain.covered_room ⟨b', hb', hxb⟩)
          (.inl (Queue.usedSlot_subset hready _ hx))
    refine ⟨holds, transport.trans hone.transport, regions.trans hone.regions, ?_, ?_, ?_, ?_, ?_⟩
    · rw [next, Queue.ofNat_succ_add]
    · rw [idx, Queue.ofNat_succ_add]
    · rw [Queue.usedElems, Queue.published, List.zipWith_cons_cons, elems,
        Queue.usedElem_congr frame hslotClear, hone.elem]
      rfl
    · refine .cons (hone.result.congr hc.status.2 (AgreeOff.refl ∅ _) frame
        (fun _ _ h => h.elim) hclear)
        ?_
      have hothers : ∀ c' ∈ cs, ∀ r', ChainResult mem₁.bytes r.2.2.bytes c' r' →
          ChainResult mem.bytes r.2.2.bytes c' r' := by
        intro c' hc' r' hr'
        obtain ⟨_, hl⟩ := laid_of_mem hlaid' c' hc'
        exact hr'.congr hl.status.2 htouch (AgreeOff.refl ∅ _) (hlay.others_clear hc')
          fun _ _ h => h.elim
      exact forall₂_imp_mem results hothers
    · have hfirst : AgreeOff (Range d.queue.usedIdxField ∪
          d.queue.usedSlots (d.queue.usedIdx mem.bytes) (n + 1) ∪
          Covered ((c :: cs).flatMap BlkChain.room)) mem.bytes mem₁.bytes := by
        refine hone.frame.mono ?_
        rintro x ((hf | hs) | ⟨b', hb', hx⟩)
        · exact .inl (.inl hf)
        · rw [Queue.usedSlots_succ]
          exact .inl (.inr (.inl hs))
        · exact .inr ⟨b', by simp [hb'], hx⟩
      refine hfirst.trans (frame.mono ?_)
      rintro x ((hf | hs) | ⟨b', hb', hx⟩)
      · exact .inl (.inl hf)
      · rw [Queue.usedSlots_succ]
        exact .inl (.inr (.inr hs))
      · exact .inr ⟨b', by rw [List.flatMap_cons]; exact List.mem_append_right _ hb', hx⟩
