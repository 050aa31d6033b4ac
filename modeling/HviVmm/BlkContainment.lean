/-
Containment of the virtio-blk device.

The guest chooses the memory, the rings, the chains and the requests.  Whatever it
chooses, a request changes the backing file in one way only, by a write inside the
advertised capacity on a writable disk, and only when its status says so.

* `transferData_effect` — what one request can do to the file, for every chain;
* `handleChain_effect` — the same with the status byte the guest finds;
* `run_contained` — over every run of register writes and notifies;
* `blk_contains_hostile_driver` — the file is never extended, never changed
  outside the capacity, never changed on a read-only disk, and never changed by a
  write request that ends in an error status.
-/
import HviVmm.Blk

open ByteCodec ByteStore

namespace HostFile

variable {bytes buf : List UInt8} {base n : ℕ}

theorem splice_eq (h : base + buf.length ≤ bytes.length) :
    splice bytes base buf = bytes.take base ++ (buf ++ bytes.drop (base + buf.length)) := by
  have hgap : base - bytes.length = 0 := by omega
  simp [splice, hgap]

theorem length_splice (h : base + buf.length ≤ bytes.length) :
    (splice bytes base buf).length = bytes.length := by
  rw [splice_eq h]
  simp
  omega

theorem drop_splice (h : base + buf.length ≤ bytes.length) (hn : base + buf.length ≤ n) :
    (splice bytes base buf).drop n = bytes.drop n := by
  obtain ⟨k, rfl⟩ := Nat.exists_eq_add_of_le hn
  have hlen : (bytes.take base ++ buf).length = base + buf.length := by
    simp
    omega
  rw [splice_eq h, ← List.append_assoc, ← List.drop_drop, List.drop_left' hlen, List.drop_drop]

theorem readExactAt_bytes (f : HostFile) (n base : ℕ) :
    (f.readExactAt n base).2.bytes = f.bytes := by
  unfold readExactAt
  split
  · rfl
  · simp only
    split
    · rfl
    · split <;> rfl

end HostFile

/-! ### Memory keeps its regions -/

theorem scatterSegs_regions (mem : GuestRam) (segs : List Seg) (src : List UInt8)
    (written : UInt32) : (scatterSegs mem segs src written).2.regions = mem.regions := by
  induction segs generalizing mem src written with
  | nil => rfl
  | cons s segs ih =>
    obtain ⟨addr, len⟩ := s
    rw [scatterSegs]
    split
    · rfl
    · next mem' hw => rw [ih, (GuestRam.write_bytes hw).2.1]

/-! ### One request -/

namespace VirtioBlk

variable {d d' : VirtioBlk}

/-- The advertised capacity in bytes. -/
def capacity (d : VirtioBlk) : ℕ := d.capacitySectors.toNat * 512

/-- The file holds all of the advertised capacity. -/
def Fits (d : VirtioBlk) : Prop := d.capacity ≤ d.file.bytes.length

/-- `d'` differs from `d` in the file and the ledger only. -/
def Served (d d' : VirtioBlk) : Prop := d' = { d with file := d'.file, events := d'.events }

/-- One write inside the capacity of a writable disk. -/
structure Wrote (d d' : VirtioBlk) : Prop where
  writable : d.readOnly = false
  splice : ∃ base buf, base + buf.length ≤ d.capacity ∧
    d'.file.bytes = HostFile.splice d.file.bytes base buf

theorem Served.trans {d'' : VirtioBlk} (h : Served d d') (h' : Served d' d'') : Served d d'' := by
  unfold Served at *
  rw [h'] at *
  rw [h]

theorem served_capture (d : VirtioBlk) (typ : UInt32) (sector : UInt64) (t : Transfer) :
    Served d (d.capture typ sector t) ∧ (d.capture typ sector t).file = d.file := by
  unfold capture
  split
  · exact ⟨rfl, rfl⟩
  · exact ⟨rfl, rfl⟩

/-- A granted range lies inside the capacity, and its base is the mathematical
product. -/
theorem byteRange_ok {sector len base : UInt64} (h : d.byteRange sector len = .ok base) :
    base.toNat = sector.toNat * 512 ∧ base.toNat + len.toNat ≤ d.capacity := by
  have hsec : sectorLen.toNat = 512 := rfl
  unfold byteRange at h
  split at h
  · cases h
  · next b hmul =>
    split at h
    · cases h
    · next fin hadd =>
      split at h
      · cases h
      · next hle =>
        injection h with h
        subst h
        have hbase := checkedMul_eq_some.mp hmul
        have hfin := checkedAdd_eq_some.mp hadd
        rw [hsec] at hbase
        refine ⟨hbase, ?_⟩
        rw [gt_iff_lt, UInt64.lt_iff_toNat_lt, UInt64.toNat_mul, hsec, not_lt, hfin] at hle
        unfold capacity
        omega

theorem length_gatherSegs {mem : GuestRam} {segs : List Seg} {buf : List UInt8}
    (hg : gatherSegs mem segs = some buf) : buf.length = totalLen segs := by
  induction segs generalizing buf with
  | nil =>
    simp only [gatherSegs, Option.some.injEq] at hg
    rw [← hg]
    rfl
  | cons s segs ih =>
    simp only [gatherSegs, Option.bind_eq_bind, Option.bind_eq_some_iff, Option.some.injEq] at hg
    obtain ⟨part, hpart, rest, hrest, rfl⟩ := hg
    have hlen := (GuestRam.read_eq_some hpart).2
    rw [List.length_append, ih hrest, hlen, length_peek]
    simp [totalLen, spans, span]

/-- What the data part of a request may do: nothing to the file, or one write
inside the capacity that ends well. -/
structure TransferEffect (d : VirtioBlk) (mem : GuestRam) (r : BlkResult Transfer) : Prop where
  served : Served d r.2.1
  regions : r.2.2.regions = mem.regions
  file : r.2.1.file.bytes = d.file.bytes ∨
    (Wrote d r.2.1 ∧ ∃ t, r.1 = .ok t ∧ t.status = virtioBlkSOk)

theorem readRequest_effect (d : VirtioBlk) (mem : GuestRam) (sector : UInt64) (segs : List Seg) :
    TransferEffect d mem (d.readRequest mem sector segs) := by
  have hbytes := d.file.readExactAt_bytes (totalLen segs)
  unfold readRequest
  split
  · exact ⟨rfl, rfl, .inl rfl⟩
  · next base _ =>
    simp only
    split
    · exact ⟨rfl, rfl, .inl (hbytes _)⟩
    · next buf _ =>
      split
      · exact ⟨rfl, scatterSegs_regions mem segs buf 0, .inl (hbytes _)⟩
      · exact ⟨rfl, scatterSegs_regions mem segs buf 0, .inl (hbytes _)⟩

theorem writeRequest_effect (d : VirtioBlk) (mem : GuestRam) (sector : UInt64) (segs : List Seg)
    (hro : d.readOnly = false) (hlen : totalLen segs < 2 ^ 64) :
    TransferEffect d mem (d.writeRequest mem sector segs) := by
  unfold writeRequest
  split
  · exact ⟨rfl, rfl, .inl rfl⟩
  · next base hrange =>
    obtain ⟨-, hcap⟩ := byteRange_ok hrange
    rw [UInt64.toNat_ofNat', Nat.mod_eq_of_lt hlen] at hcap
    split
    · exact ⟨rfl, rfl, .inl rfl⟩
    · next buf hg =>
      rw [← length_gatherSegs hg] at hcap
      simp only [HostFile.writeAllAt]
      by_cases hnil : buf = []
      · rw [if_pos hnil]
        exact ⟨rfl, rfl, .inl rfl⟩
      · rw [if_neg hnil]
        by_cases hfault : d.file.faults.head?.getD false = true
        · rw [if_pos hfault]
          exact ⟨rfl, rfl, .inl rfl⟩
        · rw [if_neg hfault]
          exact ⟨rfl, rfl, .inr ⟨⟨hro, base.toNat, buf, hcap, rfl⟩, _, rfl, rfl⟩⟩

theorem flushRequest_effect (d : VirtioBlk) (mem : GuestRam) :
    TransferEffect d mem (d.flushRequest mem) := by
  unfold flushRequest HostFile.syncData
  simp only
  split
  · exact ⟨rfl, rfl, .inl rfl⟩
  · exact ⟨rfl, rfl, .inl rfl⟩

theorem getIdRequest_effect (d : VirtioBlk) (mem : GuestRam) (segs : List Seg) :
    TransferEffect d mem (d.getIdRequest mem segs) := by
  unfold getIdRequest
  simp only
  split
  · exact ⟨rfl, scatterSegs_regions _ _ _ _, .inl rfl⟩
  · exact ⟨rfl, scatterSegs_regions _ _ _ _, .inl rfl⟩

/-- **One request**, for every type, sector and layout. -/
theorem transferData_effect (d : VirtioBlk) (mem : GuestRam) (typ : UInt32) (sector : UInt64)
    {outs : List Seg} (ins : List Seg) (hlen : totalLen outs < 2 ^ 64) :
    TransferEffect d mem (d.transferData mem typ sector outs ins) := by
  unfold transferData
  split
  · exact readRequest_effect d mem sector ins
  split
  · exact ⟨rfl, rfl, .inl rfl⟩
  · next hro =>
    split
    · exact ⟨rfl, rfl, .inl rfl⟩
    split
    · next hout =>
      have hwritable : d.readOnly = false := by
        rw [← Bool.not_eq_true]
        exact fun h => hro ⟨hout, h⟩
      exact writeRequest_effect d mem sector outs hwritable hlen
    split
    · exact flushRequest_effect d mem
    split
    · exact getIdRequest_effect d mem ins
    · exact ⟨rfl, rfl, .inl rfl⟩

/-! ### One chain -/

theorem totalLen_lt {segs : List Seg} (h : segs.length ≤ 256) : totalLen segs < 2 ^ 64 := by
  have hbound : totalLen segs ≤ 2 ^ 32 * segs.length := by
    clear h
    induction segs with
    | nil => exact Nat.le_refl _
    | cons s segs ih =>
      have hs := s.2.toNat_lt
      simp only [totalLen, spans, span, List.map_cons, total_cons, List.length_cons] at ih ⊢
      omega
  omega

/-- A chain has at most 256 descriptors, so its buffers' lengths add up without
overflow. -/
theorem totalLen_readable_lt (q : Queue) (mem : GuestRam) (head : UInt16) :
    totalLen (readable (q.chain mem head).1).tail < 2 ^ 64 := by
  refine totalLen_lt ?_
  have hwalk := q.length_walk_le mem q.size.toNat head
  have hsize := q.size_toNat
  have hnum := q.num_le
  have hfilter := List.length_filter_le (fun d : Desc => !d.isWrite) (q.chain mem head).1
  simp only [readable, List.length_tail, List.length_map, Queue.chain] at hfilter ⊢
  omega

/-- What a chain may do to the device and to the status byte.  The file changes
only by a write inside the capacity, and then the guest finds `S_OK` where its
status byte is, if that is in RAM at all. -/
structure ChainEffect (d : VirtioBlk) (mem : GuestRam) (writable : List Seg)
    (r : UInt32 × VirtioBlk × GuestRam) : Prop where
  served : Served d r.2.1
  regions : r.2.2.regions = mem.regions
  file : r.2.1.file.bytes = d.file.bytes ∨ Wrote d r.2.1
  status : r.2.1.file.bytes ≠ d.file.bytes → ∀ s ∈ writable.getLast?,
    mem.contains s.1 1 = true → r.2.2.bytes s.1.toNat = virtioBlkSOk

/-- The same for a request, whose status byte is at `saddr`. -/
structure RequestEffect (d : VirtioBlk) (mem : GuestRam) (saddr : UInt64) (r : BlkResult UInt32) :
    Prop where
  served : Served d r.2.1
  regions : r.2.2.regions = mem.regions
  file : r.2.1.file.bytes = d.file.bytes ∨ Wrote d r.2.1
  status : r.2.1.file.bytes ≠ d.file.bytes → mem.contains saddr 1 = true →
    (∃ n, r.1 = .ok n) ∧ r.2.2.bytes saddr.toNat = virtioBlkSOk

theorem finishRequest_effect (d : VirtioBlk) (mem : GuestRam) (typ : UInt32) (sector saddr : UInt64)
    (t : Transfer) :
    Served d (d.finishRequest mem typ sector saddr t).2.1 ∧
      (d.finishRequest mem typ sector saddr t).2.1.file = d.file ∧
      (d.finishRequest mem typ sector saddr t).2.2.regions = mem.regions := by
  unfold finishRequest
  split
  · exact ⟨rfl, rfl, rfl⟩
  · next mem' hw =>
    exact ⟨(served_capture d typ sector t).1, (served_capture d typ sector t).2,
      (GuestRam.write_bytes hw).2.1⟩

/-- When the status byte is in RAM, a request ends well with the status stored. -/
theorem finishRequest_status (d : VirtioBlk) (typ : UInt32) (sector : UInt64) (t : Transfer)
    {mem : GuestRam} {saddr : UInt64} (hin : mem.contains saddr 1 = true) :
    ∃ d' mem', d.finishRequest mem typ sector saddr t = (.ok (t.deviceWritten + 1), d', mem') ∧
      mem'.bytes saddr.toNat = t.status := by
  have hin' : mem.contains saddr [t.status].length = true := hin
  obtain ⟨mem', hw⟩ := GuestRam.write_isSome hin'
  have hw' : mem.writeU8 saddr t.status = some mem' := hw
  refine ⟨d.capture typ sector t, mem', by rw [finishRequest, hw'], ?_⟩
  rw [(GuestRam.write_bytes hw).2.2]
  exact poke_inside (k := 0) (by simp)

theorem handleRequest_effect (d : VirtioBlk) (mem : GuestRam) (haddr : UInt64) {outs : List Seg}
    (ins : List Seg) (saddr : UInt64) (hlen : totalLen outs < 2 ^ 64) :
    RequestEffect d mem saddr (d.handleRequest mem haddr outs ins saddr) := by
  unfold handleRequest
  split
  · next typ sector _ _ =>
    have heff := transferData_effect d mem typ sector ins hlen
    simp only
    generalize d.transferData mem typ sector outs ins = r at heff
    obtain ⟨res, d₁, mem₁⟩ := r
    obtain ⟨hserved, hreg, hfile⟩ := heff
    simp only at hserved hreg hfile ⊢
    cases res with
    | error e =>
      have hsame : d₁.file.bytes = d.file.bytes := by
        rcases hfile with h | ⟨-, t, ht, -⟩
        · exact h
        · cases ht
      exact ⟨hserved, hreg, .inl hsame, fun h => absurd hsame h⟩
    | ok t =>
      obtain ⟨hserved', hfile', hreg'⟩ := finishRequest_effect d₁ mem₁ typ sector saddr t
      simp only
      refine ⟨hserved.trans hserved', hreg'.trans hreg, ?_, fun hne hin => ?_⟩
      · rcases hfile with h | ⟨⟨hro, base, buf, hcap, hsp⟩, -⟩
        · exact .inl (by rw [hfile', h])
        · exact .inr ⟨hro, base, buf, hcap, by rw [hfile', hsp]⟩
      · rcases hfile with h | ⟨-, t', ht', hok⟩
        · exact absurd (by rw [hfile', h]) hne
        · injection ht' with ht'
          subst ht'
          obtain ⟨d₂, mem₂, heq, hstatus⟩ := finishRequest_status d₁ typ sector t
            ((GuestRam.contains_congr hreg).trans hin)
          rw [heq]
          exact ⟨⟨_, rfl⟩, by rw [hstatus, hok]⟩
  · exact ⟨rfl, rfl, .inl rfl, fun h => absurd rfl h⟩

theorem handleSegs_effect (d : VirtioBlk) (mem : GuestRam) {readable : List Seg}
    (writable : List Seg) (hlen : totalLen readable.tail < 2 ^ 64) :
    ChainEffect d mem writable (d.handleSegs mem readable writable) := by
  unfold handleSegs
  split
  · next header outs status hlast =>
    rw [List.tail_cons] at hlen
    have heff := handleRequest_effect d mem header.1 writable.dropLast status.1 hlen
    simp only
    generalize d.handleRequest mem header.1 outs writable.dropLast status.1 = r at heff
    obtain ⟨res, d₁, mem₁⟩ := r
    obtain ⟨hserved, hreg, hfile, hstatus⟩ := heff
    simp only at hserved hreg hfile hstatus ⊢
    cases res with
    | ok written =>
      refine ⟨hserved, hreg, hfile, fun hne s hs hin => ?_⟩
      rw [hlast, Option.mem_some] at hs
      subst hs
      exact (hstatus hne hin).2
    | error e =>
      refine ⟨hserved, GuestRam.getD_write_regions.trans hreg, hfile, fun hne s hs hin => ?_⟩
      rw [hlast, Option.mem_some] at hs
      subst hs
      obtain ⟨⟨n, hn⟩, -⟩ := hstatus hne hin
      cases hn
  · exact ⟨rfl, rfl, .inl rfl, fun h => absurd rfl h⟩

/-- **One chain**, for every memory and every head. -/
theorem handleChain_effect (d : VirtioBlk) (mem : GuestRam) (head : UInt16) :
    ChainEffect d mem (writable (d.queue.chain mem head).1) (d.handleChain mem head) :=
  handleSegs_effect d mem _ (totalLen_readable_lt d.queue mem head)

/-! ### Runs -/

/-- `d'` is `d` after it has served the guest: the same capacity and mode, and a
file of the same length, the same past the capacity, and the same throughout when
the disk is read-only. -/
structure Contained (d d' : VirtioBlk) : Prop where
  capacity : d'.capacity = d.capacity
  readOnly : d'.readOnly = d.readOnly
  length : d'.file.bytes.length = d.file.bytes.length
  past : d'.file.bytes.drop d.capacity = d.file.bytes.drop d.capacity
  kept : d.readOnly = true → d'.file.bytes = d.file.bytes

theorem Contained.refl (d : VirtioBlk) : Contained d d := ⟨rfl, rfl, rfl, rfl, fun _ => rfl⟩

theorem Contained.trans {d'' : VirtioBlk} (h : Contained d d') (h' : Contained d' d'') :
    Contained d d'' where
  capacity := h'.capacity.trans h.capacity
  readOnly := h'.readOnly.trans h.readOnly
  length := h'.length.trans h.length
  past := by
    have := h'.past
    rw [h.capacity] at this
    exact this.trans h.past
  kept hro := (h'.kept (h.readOnly.trans hro)).trans (h.kept hro)

theorem Contained.fits (h : Contained d d') (hf : d.Fits) : d'.Fits := by
  unfold Fits
  rw [h.capacity, h.length]
  exact hf

theorem contained_of_wrote (hf : d.Fits) (hs : Served d d')
    (h : d'.file.bytes = d.file.bytes ∨ Wrote d d') : Contained d d' := by
  have hcap : d'.capacity = d.capacity := by rw [hs]; rfl
  have hro : d'.readOnly = d.readOnly := by rw [hs]
  rcases h with hsame | ⟨hwr, base, buf, hin, hsp⟩
  · exact ⟨hcap, hro, by rw [hsame], by rw [hsame], fun _ => hsame⟩
  · have hfit : base + buf.length ≤ d.file.bytes.length := Nat.le_trans hin hf
    refine ⟨hcap, hro, ?_, ?_, fun h => ?_⟩
    · rw [hsp, HostFile.length_splice hfit]
    · rw [hsp, HostFile.drop_splice hfit hin]
    · rw [h] at hwr
      cases hwr

/-- The loop serves head after head; each keeps the file contained. -/
theorem serveHeads_contained (n : ℕ) (last : UInt16) (mem : GuestRam) (hf : d.Fits) :
    Contained d (serveHeads n last d mem).2.1 := by
  induction n generalizing last d mem with
  | zero => exact Contained.refl d
  | succ n ih =>
    rw [serveHeads]
    split
    · exact Contained.refl d
    · split
      · exact Contained.refl d
      · next head _ =>
        have heff := handleChain_effect d mem head
        have hstep := contained_of_wrote hf heff.served heff.file
        exact hstep.trans (ih _ _ (hstep.fits hf))

theorem contained_transport (h : Contained d d') (t : Transport 1) :
    Contained d { d' with transport := t } :=
  ⟨h.capacity, h.readOnly, h.length, h.past, h.kept⟩

theorem processQueue_contained (mem : GuestRam) (hf : d.Fits) :
    Contained d (d.processQueue mem).1 := by
  unfold processQueue
  split
  · split
    · exact Contained.refl d
    · exact contained_transport (serveHeads_contained _ _ mem hf) _
  · exact Contained.refl d

theorem mmioWrite_contained (mem : GuestRam) (w : UInt64 × UInt64) (hf : d.Fits) :
    Contained d (d.mmioWrite mem w).1 := by
  unfold mmioWrite
  split
  · exact processQueue_contained mem hf
  · exact contained_transport (Contained.refl d) _
  · exact Contained.refl d

/-- One step of a driver: it fills RAM as it likes and writes a register. -/
structure DriverStep where
  bytes : ℕ → UInt8
  reg : UInt64
  value : UInt64

/-- The device after the steps of a driver. -/
def run (d : VirtioBlk) (mem : GuestRam) : List DriverStep → VirtioBlk × GuestRam
  | [] => (d, mem)
  | s :: steps =>
    let r := d.mmioWrite { mem with bytes := s.bytes } (s.reg, s.value)
    r.1.run r.2 steps

/-- **Every run** keeps the file contained. -/
theorem run_contained (mem : GuestRam) (steps : List DriverStep) (hf : d.Fits) :
    Contained d (d.run mem steps).1 := by
  induction steps generalizing d mem with
  | nil => exact Contained.refl d
  | cons s steps ih =>
    have hstep := mmioWrite_contained { mem with bytes := s.bytes } (s.reg, s.value) hf
    exact hstep.trans (ih _ (hstep.fits hf))

theorem openAs_fits {file : HostFile} {ro : Bool} {serial : String}
    (h : openAs file ro serial = some d) : d.Fits ∧ d.file = file ∧ d.readOnly = ro := by
  unfold openAs at h
  simp only [gt_iff_lt, Option.ite_none_left_eq_some, Option.some.injEq] at h
  obtain ⟨-, rfl⟩ := h
  refine ⟨?_, rfl, rfl⟩
  have hsec : sectorLen.toNat = 512 := rfl
  simp only [Fits, capacity, UInt64.toNat_div, UInt64.toNat_ofNat', hsec]
  omega

end VirtioBlk

/-- **Containment against a hostile driver.**  From a freshly opened disk, after
any sequence of register writes and notifies over any memory contents, the backing
file has its length and its bytes past the advertised capacity, and all its bytes
when it was opened read-only.  And in any state, a chain that leaves anything but
`S_OK` in its status byte has not changed the file. -/
theorem blk_contains_hostile_driver (file : HostFile) (ro : Bool) (serial : String)
    (d : VirtioBlk) (hopen : VirtioBlk.openAs file ro serial = some d) (mem : GuestRam)
    (steps : List VirtioBlk.DriverStep) :
    (d.run mem steps).1.file.bytes.length = file.bytes.length ∧
      (d.run mem steps).1.file.bytes.drop (d.capacitySectors.toNat * 512) =
        file.bytes.drop (d.capacitySectors.toNat * 512) ∧
      (ro = true → (d.run mem steps).1.file.bytes = file.bytes) ∧
      ∀ (d' : VirtioBlk) (mem' : GuestRam) (head : UInt16),
        ∀ s ∈ (writable (d'.queue.chain mem' head).1).getLast?, mem'.contains s.1 1 = true →
          (d'.handleChain mem' head).2.2.bytes s.1.toNat ≠ virtioBlkSOk →
            (d'.handleChain mem' head).2.1.file.bytes = d'.file.bytes := by
  obtain ⟨hfits, hfile, hro⟩ := VirtioBlk.openAs_fits hopen
  have hrun := VirtioBlk.run_contained mem steps hfits
  rw [← hfile, ← hro]
  refine ⟨hrun.length, hrun.past, hrun.kept, fun d' mem' head s hs hin hne => ?_⟩
  by_contra hchanged
  exact hne ((VirtioBlk.handleChain_effect d' mem' head).status hchanged s hs hin)

/-- A read-only disk of one sector stays as it is, whatever the driver does. -/
theorem blk_contains_hostile_driver_sample :
    ∃ d, VirtioBlk.openAs ⟨List.replicate 512 7, [], []⟩ true "root" = some d ∧
      ∀ steps, (d.run sampleRam steps).1.file.bytes = List.replicate 512 7 := by
  refine ⟨_, rfl, fun steps => ?_⟩
  exact (blk_contains_hostile_driver ⟨List.replicate 512 7, [], []⟩ true "root" _ rfl sampleRam
    steps).2.2.1 rfl

/-- The queue `sampleWrites` programs. -/
def sampleQueue : Queue where
  num := 8
  ready := true
  desc := 0x40000000
  avail := 0x40001000
  used := 0x40002000
  num_valid := by decide

/-- A device that serves `sampleQueue` from `file`. -/
def sampleDevice (file : HostFile) (capacitySectors : UInt64) : VirtioBlk where
  file := file
  capacitySectors := capacitySectors
  transport := { queues := fun _ => sampleQueue }
  readOnly := false
  serial := Vector.replicate serialLen 0
  serialText := ""

/-- RAM with a chain that writes the byte 9 to sector 0, and whose status buffer is at
address 0, outside RAM. -/
def strayStatus : GuestRam :=
  { sampleRam with
    bytes := poke (poke (fun _ => 0) 0x40000000
      [0, 0x30, 0, 0x40, 0, 0, 0, 0, 16, 0, 0, 0, 1, 0, 1, 0,
        0x10, 0x30, 0, 0x40, 0, 0, 0, 0, 1, 0, 0, 0, 1, 0, 2, 0,
        0, 0, 0, 0, 0, 0, 0, 0, 1, 0, 0, 0, 2, 0, 0, 0])
      0x40003000 [1, 0, 0, 0, 0, 0, 0, 0, 0, 0, 0, 0, 0, 0, 0, 0, 9] }

/-- **A request fails after it wrote**: its status cannot be stored, so `handle_request`
fails and `handle_chain` takes its error arm, and the file has the byte. -/
theorem blk_stray_status_written :
    writable (sampleQueue.chain strayStatus 0).1 = [(0, 1)] ∧ strayStatus.contains 0 1 = false ∧
    ((sampleDevice ⟨List.replicate 512 7, [], []⟩ 1).handleRequest strayStatus 0x40003000
      [(0x40003010, 1)] [] 0).1 = .error .ram ∧
    ((sampleDevice ⟨List.replicate 512 7, [], []⟩ 1).handleChain strayStatus 0).2.1.file.bytes =
      9 :: List.replicate 511 7 := by
  refine ⟨by decide +kernel, by decide, by decide +kernel, by decide +kernel⟩
