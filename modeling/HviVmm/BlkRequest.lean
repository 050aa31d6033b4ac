/-
One request of the virtio-blk device is one request of a disk.

The chain is laid out as the protocol asks, its buffers are in RAM, and the device
holds the disk.  Then the device answers as the disk does: the reply's data goes
into the chain's room, its status into the status byte, and the length returned for
the used ring is the number of bytes written, counted modulo 2³².

* `byteRange_spec` — the checked arithmetic decides exactly whether the request
  lies inside the capacity;
* `transferData_refines` — the data part, one case per request type;
* `handleChain_refines` — the whole chain.
-/
import HviVmm.BlkContainment
import HviVmm.Disk

open ByteCodec ByteStore

/-! ### Guest buffers -/

/-- Scattering over buffers in RAM stores the source and counts it. -/
theorem scatterSegs_eq {mem : GuestRam} {segs : List Seg} (hin : InRam mem segs)
    (src : List UInt8) (written : UInt32) :
    scatterSegs mem segs src written =
      (.ok (written + UInt32.ofNat (min (totalLen segs) src.length)),
        { mem with bytes := scatter mem.bytes (spans segs) src }) := by
  induction segs generalizing mem src written with
  | nil => simp [scatterSegs, spans, scatter, totalLen]
  | cons s segs ih =>
    obtain ⟨addr, len⟩ := s
    have hhead : mem.contains addr len.toNat = true := hin (addr, len) (by simp)
    have hfit : mem.contains addr (src.take (min len.toNat src.length)).length = true :=
      GuestRam.contains_mono hhead (by simp)
    have htake : src.take (min len.toNat src.length) = src.take len.toNat :=
      List.take_eq_take_min.symm
    have hdrop : src.drop (min len.toNat src.length) = src.drop len.toNat := by
      rcases Nat.le_total len.toNat src.length with h | h
      · rw [Nat.min_eq_left h]
      · rw [Nat.min_eq_right h, List.drop_length, List.drop_eq_nil_of_le h]
    have hrest : InRam { mem with bytes := poke mem.bytes addr.toNat (src.take len.toNat) } segs :=
      fun t ht => hin t (by simp [ht])
    rw [scatterSegs, GuestRam.write_eq hfit]
    simp only [htake, hdrop]
    rw [ih hrest, UInt32.add_assoc, ← UInt32.ofNat_add]
    have hcount : min len.toNat src.length + min (totalLen segs) (src.drop len.toNat).length =
        min (totalLen ((addr, len) :: segs)) src.length := by
      rw [totalLen_cons, List.length_drop]
      simp only
      omega
    rw [hcount]
    rfl

theorem gatherSegs_eq {mem : GuestRam} {segs : List Seg} (hin : InRam mem segs) :
    gatherSegs mem segs = some (gather mem.bytes (spans segs)) := by
  induction segs with
  | nil => rfl
  | cons s segs ih =>
    obtain ⟨addr, len⟩ := s
    have hhead : mem.contains addr len.toNat = true := hin (addr, len) (by simp)
    rw [gatherSegs, GuestRam.read_eq hhead, ih fun t ht => hin t (by simp [ht])]
    rfl

theorem HostFile.tail_faults {f : HostFile} (h : f.faults = []) :
    { f with faults := f.faults.tail } = f := by
  obtain ⟨bytes, faults, syncFaults⟩ := f
  subst h
  rfl

/-! ### The capacity check -/

namespace VirtioBlk

variable {d : VirtioBlk} {k : Disk} {rest : List UInt8} {mem : GuestRam}
variable {base : ℕ} {ins outs : List Seg}

/-- **The range check is exact**: neither product nor sum can wrap into the disk. -/
theorem byteRange_spec (hcap : d.capacitySectors.toNat * 512 < 2 ^ 64) (sector len : UInt64) :
    (∃ base, d.byteRange sector len = .ok base ∧ base.toNat = sector.toNat * 512 ∧
      sector.toNat * 512 + len.toNat ≤ d.capacitySectors.toNat * 512) ∨
    (∃ e, d.byteRange sector len = .error e ∧
      ¬ sector.toNat * 512 + len.toNat ≤ d.capacitySectors.toNat * 512) := by
  have hsec : sectorLen.toNat = 512 := rfl
  have hcap' : (d.capacitySectors * sectorLen).toNat = d.capacitySectors.toNat * 512 := by
    rw [UInt64.toNat_mul, hsec, Nat.mod_eq_of_lt hcap]
  cases hmul : checkedMul sector sectorLen with
  | none =>
    refine .inr ⟨.sectorOverflows, by rw [byteRange, hmul], ?_⟩
    simp only [checkedMul, ite_eq_right_iff, reduceCtorEq, imp_false, hsec] at hmul
    omega
  | some base =>
    have hbase := checkedMul_eq_some.mp hmul
    rw [hsec] at hbase
    cases hadd : checkedAdd base len with
    | none =>
      refine .inr ⟨.lengthOverflows, by simp only [byteRange, hmul, hadd], ?_⟩
      simp only [checkedAdd, ite_eq_right_iff, reduceCtorEq, imp_false] at hadd
      omega
    | some fin =>
      have hfin := checkedAdd_eq_some.mp hadd
      have hcmp : fin > d.capacitySectors * sectorLen ↔
          d.capacitySectors.toNat * 512 < fin.toNat := by
        rw [gt_iff_lt, UInt64.lt_iff_toNat_lt, hcap']
      by_cases hlt : d.capacitySectors.toNat * 512 < fin.toNat
      · refine .inr ⟨.pastCapacity, ?_, by omega⟩
        simp only [byteRange, hmul, hadd, if_pos (hcmp.mpr hlt)]
      · refine .inl ⟨base, ?_, hbase, by omega⟩
        simp only [byteRange, hmul, hadd, if_neg (fun h => hlt (hcmp.mp h))]

/-! ### The data part of a request -/

/-- The device answered as the disk did: `a` is the disk after the request and its
reply. -/
structure Answered (d : VirtioBlk) (mem : GuestRam) (ins : List Seg) (rest : List UInt8)
    (a : Disk × DiskReply) (r : BlkResult Transfer) : Prop where
  holds : r.2.1.Holds a.1 rest
  transport : r.2.1.transport = d.transport
  mem : r.2.2 = { mem with bytes := scatter mem.bytes (spans ins) a.2.data }
  outcome : (∃ t, r.1 = .ok t ∧ t.status = a.2.status ∧
      t.deviceWritten = UInt32.ofNat a.2.data.length) ∨
    ∃ e, r.1 = .error e ∧ a.2 = ⟨virtioBlkSIoerr, []⟩

theorem answered_refused (h : d.Holds k rest) (ins : List Seg) (e : BlkError) :
    Answered d mem ins rest (k, ⟨virtioBlkSIoerr, []⟩) (.error e, d, mem) :=
  ⟨h, rfl, by simp, .inr ⟨e, rfl, rfl⟩⟩

/-- A request that moves no data: the status alone. -/
theorem answered_status (h : d.Holds k rest) (ins : List Seg) (status : UInt8) (n : UInt64) :
    Answered d mem ins rest (k, ⟨status, []⟩) (.ok ⟨status, 0, n⟩, d, mem) :=
  ⟨h, rfl, by simp, .inl ⟨_, rfl, rfl, rfl⟩⟩

theorem readExactAt_holds (h : d.Holds k rest) {n : ℕ} (hle : base + n ≤ k.data.length) :
    d.file.readExactAt n base = (some ((k.data.drop base).take n), d.file) := by
  unfold HostFile.readExactAt
  by_cases hn : n = 0
  · simp [hn]
  · have hlen : base + n ≤ d.file.bytes.length := by
      rw [h.bytes, List.length_append]
      omega
    have hpart : ((k.data ++ rest).drop base).take n = (k.data.drop base).take n := by
      rw [List.drop_append_of_le_length (by omega), List.take_append_of_le_length (by simp; omega)]
    have hfault : ¬ d.file.faults.head?.getD false = true := by simp [h.faults]
    simp only [if_neg hn, if_neg hfault, if_pos hlen, HostFile.tail_faults h.faults]
    rw [h.bytes, hpart]

theorem readRequest_refines (h : d.Holds k rest) (sector : UInt64) (hin : InRam mem ins)
    (hlen : totalLen ins < 2 ^ 64) :
    Answered d mem ins rest (k.serve (.read sector.toNat (totalLen ins)))
      (d.readRequest mem sector ins) := by
  have hlen' : (UInt64.ofNat (totalLen ins)).toNat = totalLen ins := by
    rw [UInt64.toNat_ofNat', Nat.mod_eq_of_lt hlen]
  unfold readRequest
  rcases byteRange_spec h.addressable sector (UInt64.ofNat (totalLen ins)) with
    ⟨base, hok, hbase, hle⟩ | ⟨e, herr, hgt⟩
  · rw [hlen', ← h.length] at hle
    have hcount :
        min (totalLen ins) ((k.data.drop (sector.toNat * 512)).take (totalLen ins)).length =
        ((k.data.drop (sector.toNat * 512)).take (totalLen ins)).length := by
      simp
    rw [Disk.serve_read_ok hle, hok]
    simp only [hbase, readExactAt_holds h hle, scatterSegs_eq hin, hcount]
    exact ⟨h, rfl, rfl, .inl ⟨_, rfl, rfl, UInt32.zero_add _⟩⟩
  · rw [hlen', ← h.length] at hgt
    rw [Disk.serve_read_refused hgt, herr]
    exact answered_refused h ins e

theorem writeAllAt_holds (h : d.Holds k rest) {buf : List UInt8}
    (hle : base + buf.length ≤ k.data.length) :
    d.file.writeAllAt buf base =
      (true, { d.file with bytes := (k.replace base buf).data ++ rest }) := by
  have hsplice : HostFile.splice d.file.bytes base buf = (k.replace base buf).data ++ rest := by
    have hle' : base + buf.length ≤ d.file.bytes.length := by
      rw [h.bytes, List.length_append]
      omega
    rw [HostFile.splice_eq hle', h.bytes, List.take_append_of_le_length (by omega),
      List.drop_append_of_le_length hle]
    simp [Disk.replace]
  unfold HostFile.writeAllAt
  by_cases hnil : buf = []
  · subst hnil
    simp [Disk.replace, ← h.bytes]
  · rw [if_neg hnil]
    have htail := HostFile.tail_faults h.faults
    simp only [h.faults, List.head?_nil, Option.getD_none, Bool.false_eq_true, if_false, hsplice,
      List.tail_nil] at htail ⊢

theorem replace_holds (h : d.Holds k rest) {buf : List UInt8}
    (hle : base + buf.length ≤ k.data.length) :
    Holds { d with file := { d.file with bytes := (k.replace base buf).data ++ rest } }
      (k.replace base buf) rest := by
  refine ⟨rfl, ?_, h.addressable, h.faults, h.syncFaults, h.readOnly, h.serial⟩
  rw [← h.length]
  simp [Disk.replace]
  omega

theorem writeRequest_refines (h : d.Holds k rest) (hro : d.readOnly = false) (sector : UInt64)
    (ins : List Seg) (hout : InRam mem outs) (hlen : totalLen outs < 2 ^ 64) :
    Answered d mem ins rest (k.serve (.write sector.toNat (gather mem.bytes (spans outs))))
      (d.writeRequest mem sector outs) := by
  have hlen' : (UInt64.ofNat (totalLen outs)).toNat = totalLen outs := by
    rw [UInt64.toNat_ofNat', Nat.mod_eq_of_lt hlen]
  have hbuf : (gather mem.bytes (spans outs)).length = totalLen outs := length_gather _ _
  unfold writeRequest
  rcases byteRange_spec h.addressable sector (UInt64.ofNat (totalLen outs)) with
    ⟨base, hok, hbase, hle⟩ | ⟨e, herr, hgt⟩
  · rw [hlen', ← h.length, ← hbuf] at hle
    rw [Disk.serve_write_ok (h.readOnly ▸ hro) hle, hok]
    simp only [gatherSegs_eq hout, hbase, writeAllAt_holds h hle, if_true]
    exact ⟨replace_holds h hle, rfl, by simp, .inl ⟨_, rfl, rfl, rfl⟩⟩
  · rw [hlen', ← h.length, ← hbuf] at hgt
    rw [Disk.serve_write_refused (fun hc => hgt hc.2), herr]
    exact answered_refused h ins e

theorem flushRequest_refines (h : d.Holds k rest) (hro : d.readOnly = false) (ins : List Seg) :
    Answered d mem ins rest (k.serve .flush) (d.flushRequest mem) := by
  have hro' : ¬ k.readOnly = true := by
    rw [← h.readOnly, hro]
    decide
  have hholds : Holds { d with file := { d.file with syncFaults := d.file.syncFaults.tail } }
      { k with syncFaults := k.syncFaults.tail } rest :=
    ⟨h.bytes, h.length, h.addressable, h.faults, by rw [h.syncFaults], h.readOnly, h.serial⟩
  simp only [flushRequest, HostFile.syncData, Disk.serve, if_neg hro', h.syncFaults] at hholds ⊢
  cases k.syncFaults.head?.getD false with
  | true =>
    simp only [Bool.not_true, Bool.false_eq_true, if_false, if_true]
    exact ⟨hholds, rfl, by simp, .inr ⟨_, rfl, rfl⟩⟩
  | false =>
    simp only [Bool.not_false, Bool.false_eq_true, if_false, if_true]
    exact ⟨hholds, rfl, by simp, .inl ⟨_, rfl, rfl, rfl⟩⟩

theorem getIdRequest_refines (h : d.Holds k rest) (hin : InRam mem ins) :
    Answered d mem ins rest (k.serve (.getId (totalLen ins))) (d.getIdRequest mem ins) := by
  have hsrc : scatter mem.bytes (spans ins) k.serial =
      scatter mem.bytes (spans ins) (k.serial.take (totalLen ins)) := (scatter_take _ _ _).symm
  simp only [getIdRequest, h.serial, scatterSegs_eq hin, hsrc, Disk.serve]
  exact ⟨h, rfl, rfl, .inl ⟨_, rfl, rfl, by simp⟩⟩

/-- **The data part of a request**, one case per type. -/
theorem transferData_refines (h : d.Holds k rest) (typ : UInt32) (sector : UInt64)
    (hout : InRam mem outs) (hin : InRam mem ins) (hlenOut : totalLen outs < 2 ^ 64)
    (hlenIn : totalLen ins < 2 ^ 64) :
    Answered d mem ins rest
      (k.serve (decodeRequest typ sector.toNat (totalLen ins) (gather mem.bytes (spans outs))))
      (d.transferData mem typ sector outs ins) := by
  have houtRo : ¬ typ = virtioBlkTOut → ¬ (typ = virtioBlkTOut ∧ d.readOnly = true) :=
    fun h hc => h hc.1
  have hflushRo : ¬ typ = virtioBlkTFlush → ¬ (typ = virtioBlkTFlush ∧ d.readOnly = true) :=
    fun h hc => h hc.1
  unfold transferData decodeRequest
  by_cases htin : typ = virtioBlkTIn
  · rw [if_pos htin, if_pos htin]
    exact readRequest_refines h sector hin hlenIn
  rw [if_neg htin, if_neg htin]
  by_cases htout : typ = virtioBlkTOut
  · have htflush : ¬ typ = virtioBlkTFlush := by
      rw [htout]
      decide
    rw [if_pos htout, if_neg (hflushRo htflush), if_pos htout]
    cases hro : d.readOnly with
    | true =>
      rw [if_pos ⟨htout, rfl⟩, Disk.serve_write_refused (by rw [← h.readOnly, hro]; simp)]
      exact answered_status h ins _ _
    | false =>
      rw [if_neg (by simp)]
      exact writeRequest_refines h hro sector ins hout hlenOut
  rw [if_neg htout, if_neg (houtRo htout), if_neg htout]
  by_cases htflush : typ = virtioBlkTFlush
  · rw [if_pos htflush, if_pos htflush]
    cases hro : d.readOnly with
    | true =>
      have hserve : k.serve .flush = (k, ⟨virtioBlkSOk, []⟩) := if_pos (h.readOnly ▸ hro)
      rw [if_pos ⟨htflush, rfl⟩, hserve]
      exact answered_status h ins _ _
    | false =>
      rw [if_neg (by simp)]
      exact flushRequest_refines h hro ins
  rw [if_neg htflush, if_neg (hflushRo htflush), if_neg htflush]
  by_cases htid : typ = virtioBlkTGetId
  · rw [if_pos htid, if_pos htid]
    exact getIdRequest_refines h hin
  · rw [if_neg htid, if_neg htid]
    exact answered_status h ins _ _

/-! ### The whole chain -/

/-- The chain is answered as the disk answers it: the reply's data in its room,
then the status, and the bytes written counted in a `u32`. -/
structure ChainAnswered (d : VirtioBlk) (mem : GuestRam) (ins : List Seg) (saddr : UInt64)
    (rest : List UInt8) (a : Disk × DiskReply) (r : UInt32 × VirtioBlk × GuestRam) : Prop where
  holds : r.2.1.Holds a.1 rest
  transport : r.2.1.transport = d.transport
  used : r.1 = UInt32.ofNat (a.2.data.length + 1)
  mem : r.2.2 = { mem with
    bytes := poke (scatter mem.bytes (spans ins) a.2.data) saddr.toNat [a.2.status] }

theorem capture_holds (h : d.Holds k rest) (typ : UInt32) (sector : UInt64) (t : Transfer) :
    (d.capture typ sector t).Holds k rest ∧ (d.capture typ sector t).transport = d.transport := by
  unfold capture
  split
  · exact ⟨⟨h.bytes, h.length, h.addressable, h.faults, h.syncFaults, h.readOnly, h.serial⟩, rfl⟩
  · exact ⟨h, rfl⟩

theorem handleSegs_refines (h : d.Holds k rest) {haddr saddr : UInt64}
    (hhead : mem.contains haddr 16 = true) (hstat : mem.contains saddr 1 = true)
    (hout : InRam mem outs) (hin : InRam mem ins) (hlenOut : totalLen outs < 2 ^ 64)
    (hlenIn : totalLen ins < 2 ^ 64) :
    ChainAnswered d mem ins saddr rest
      (k.serve (decodeRequest (UInt32.ofNat (leNat (peek mem.bytes haddr.toNat 4)))
        (leNat (peek mem.bytes (haddr.toNat + 8) 8)) (totalLen ins)
          (gather mem.bytes (spans outs))))
      (d.handleSegs mem ((haddr, 16) :: outs) (ins ++ [(saddr, 1)])) := by
  obtain ⟨haddr8, hhead8⟩ := GuestRam.contains_sub (o := 8) (k := 8) hhead (by decide)
  have htyp : mem.readU32 haddr = some (UInt32.ofNat (leNat (peek mem.bytes haddr.toNat 4))) := by
    rw [GuestRam.readU32, GuestRam.read_eq (GuestRam.contains_mono hhead (by decide))]
    rfl
  have hsec : mem.readU64 (haddr + 8) =
      some (UInt64.ofNat (leNat (peek mem.bytes (haddr.toNat + 8) 8))) := by
    rw [GuestRam.readU64, GuestRam.read_eq hhead8, haddr8]
    rfl
  have hsec' : (UInt64.ofNat (leNat (peek mem.bytes (haddr.toNat + 8) 8))).toNat =
      leNat (peek mem.bytes (haddr.toNat + 8) 8) := by
    have hlt := leNat_lt (peek mem.bytes (haddr.toNat + 8) 8)
    rw [length_peek] at hlt
    rw [UInt64.toNat_ofNat', Nat.mod_eq_of_lt (by omega)]
  rw [← hsec']
  generalize UInt32.ofNat (leNat (peek mem.bytes haddr.toNat 4)) = typ at htyp ⊢
  generalize UInt64.ofNat (leNat (peek mem.bytes (haddr.toNat + 8) 8)) = sector at hsec ⊢
  have hdata := transferData_refines h typ sector hout hin hlenOut hlenIn
  simp only [handleSegs, handleRequest, htyp, hsec, List.getLast?_append, List.getLast?_singleton,
    Option.some_or, List.dropLast_concat]
  generalize d.transferData mem typ sector outs ins = r at hdata ⊢
  generalize k.serve _ = a at hdata ⊢
  obtain ⟨res, d₁, mem₁⟩ := r
  obtain ⟨hholds, htrans, hmem, houtcome⟩ := hdata
  simp only at hholds htrans hmem houtcome ⊢
  subst hmem
  have hwrite : ∀ v : UInt8, GuestRam.writeU8
      { mem with bytes := scatter mem.bytes (spans ins) a.2.data } saddr v =
      some { mem with bytes := poke (scatter mem.bytes (spans ins) a.2.data) saddr.toNat [v] } :=
    fun v => GuestRam.write_eq hstat
  rcases houtcome with ⟨t, rfl, hst, hcount⟩ | ⟨e, rfl, ha⟩
  · obtain ⟨hcap, hcap'⟩ := capture_holds hholds typ sector t
    simp only [finishRequest, hwrite]
    refine ⟨hcap, hcap'.trans htrans, ?_, by rw [hst]⟩
    simp only [hcount, UInt32.ofNat_add]
    rfl
  · simp only [hwrite, Option.getD_some]
    exact ⟨hholds, htrans, by rw [ha]; rfl, by rw [ha]⟩

end VirtioBlk

/-! ### Chains in the descriptor table -/

namespace BlkChain

variable {c : BlkChain} {q : Queue} {mem : GuestRam} {head : UInt16}

theorem readable_descs (h : c.Laid q mem head) : readable c.descs = c.header.seg :: c.outs := by
  simp [readable, descs, outs, h.header.1, h.status.1]

theorem writable_descs (h : c.Laid q mem head) : writable c.descs = c.ins ++ [c.status.seg] := by
  simp [writable, descs, ins, h.header.1, h.status.1]

theorem length_data_le (h : c.Laid q mem head) : c.data.length ≤ 256 := by
  have hwalk := q.length_walk_le mem q.size.toNat head
  have hchain : (q.walk mem q.size.toNat head).1 = c.descs := congrArg Prod.fst h.chain
  have hnum := q.num_le
  rw [hchain, descs, q.size_toNat] at hwalk
  simp only [List.length_cons, List.length_append] at hwalk
  omega

theorem outs_inRam (h : c.Laid q mem head) : InRam mem c.outs := by
  intro s hs
  simp only [outs, readable, List.mem_map, List.mem_filter] at hs
  obtain ⟨d, ⟨hd, -⟩, rfl⟩ := hs
  exact h.inRam d (by simp [descs, hd])

theorem ins_inRam (h : c.Laid q mem head) : InRam mem c.ins := by
  intro s hs
  simp only [ins, writable, List.mem_map, List.mem_filter] at hs
  obtain ⟨d, ⟨hd, -⟩, rfl⟩ := hs
  exact h.inRam d (by simp [descs, hd])

theorem totalLen_outs_lt (h : c.Laid q mem head) : totalLen c.outs < 2 ^ 64 := by
  refine VirtioBlk.totalLen_lt ?_
  have := List.length_filter_le (fun d : Desc => !d.isWrite) c.data
  have := length_data_le h
  simp only [outs, readable, List.length_map]
  omega

theorem totalLen_ins_lt (h : c.Laid q mem head) : totalLen c.ins < 2 ^ 64 := by
  refine VirtioBlk.totalLen_lt ?_
  have := List.length_filter_le Desc.isWrite c.data
  have := length_data_le h
  simp only [ins, writable, List.length_map]
  omega

end BlkChain

/-- **One chain is one request of the disk.** -/
theorem VirtioBlk.handleChain_refines {d : VirtioBlk} {k : Disk} {rest : List UInt8}
    {mem : GuestRam} {head : UInt16} {c : BlkChain} (h : d.Holds k rest)
    (hc : c.Laid d.queue mem head) :
    ChainAnswered d mem c.ins c.status.addr rest (k.serve (c.request mem.bytes))
      (d.handleChain mem head) := by
  have hhead := hc.inRam c.header (by simp [BlkChain.descs])
  have hstat := hc.inRam c.status (by simp [BlkChain.descs])
  rw [hc.header.2] at hhead
  rw [hc.status.2] at hstat
  have hheadSeg : c.header.seg = (c.header.addr, 16) := by rw [Desc.seg, hc.header.2]
  have hstatSeg : c.status.seg = (c.status.addr, 1) := by rw [Desc.seg, hc.status.2]
  have hans := handleSegs_refines h hhead hstat (BlkChain.outs_inRam hc) (BlkChain.ins_inRam hc)
    (BlkChain.totalLen_outs_lt hc) (BlkChain.totalLen_ins_lt hc)
  unfold handleChain
  rw [hc.chain]
  simp only [BlkChain.readable_descs hc, BlkChain.writable_descs hc, hheadSeg, hstatSeg]
  exact hans

/-- A reply never has more data than there is room for. -/
theorem Disk.serve_data_le (k : Disk) (typ : UInt32) (sector room : ℕ) (data : List UInt8) :
    (k.serve (decodeRequest typ sector room data)).2.data.length ≤ room := by
  unfold decodeRequest
  split
  · unfold serve
    simp only
    split
    · simp
    · exact Nat.zero_le _
  split
  · unfold serve
    simp only
    split <;> exact Nat.zero_le _
  split
  · unfold serve
    simp only
    split
    · exact Nat.zero_le _
    · split <;> exact Nat.zero_le _
  split
  · simp [serve]
  · exact Nat.zero_le _
