/-
What a virtio-blk chain does to guest memory.

`handle_request` stores the data of a read in the writable buffers before the last one,
and the status byte at the address of the last one, whatever its length.

* `transferData_written` — the data part of a request counts what it stores, modulo 2³²;
* `Offers` — the chains whose status byte has a place in what the driver offers;
* `blk_writes_only_offered` — for exactly these chains the device stores inside the
  writable buffers and reports no more than they hold;
* `blk_status_outside` — a chain where it does not.
-/
import HviVmm.BlkRefinement
import HviVmm.ChainIo

open ByteCodec ByteStore

/-! ### The bytes stored -/

/-- How many bytes `scatter` stores, one that fails on the way included. -/
def scatterStored (mem : GuestRam) : List Seg → List UInt8 → ℕ
  | [], _ => 0
  | (addr, len) :: segs, src =>
    let n := min len.toNat src.length
    match mem.write addr (src.take n) with
    | none => 0
    | some mem => n + scatterStored mem segs (src.drop n)

/-- `scatter` counts what it stores, modulo 2³². -/
theorem scatterSegs_written {mem : GuestRam} {segs : List Seg} {src : List UInt8}
    {written n : UInt32} (h : (scatterSegs mem segs src written).1 = .ok n) :
    n = written + UInt32.ofNat (scatterStored mem segs src) := by
  induction segs generalizing mem src written with
  | nil =>
    injection h with h
    rw [← h, scatterStored]
    simp
  | cons s segs ih =>
    obtain ⟨addr, len⟩ := s
    rw [scatterSegs] at h
    rw [scatterStored]
    cases hw : mem.write addr (src.take (min len.toNat src.length)) with
    | none =>
      rw [hw] at h
      cases h
    | some mem' =>
      rw [hw] at h
      simp only at h ⊢
      rw [ih h, UInt32.ofNat_add, UInt32.add_assoc]

theorem scatterStored_le_total (mem : GuestRam) (segs : List Seg) (src : List UInt8) :
    scatterStored mem segs src ≤ totalLen segs := by
  induction segs generalizing mem src with
  | nil => exact Nat.le_refl 0
  | cons s segs ih =>
    obtain ⟨addr, len⟩ := s
    rw [scatterStored, totalLen_cons]
    cases mem.write addr (src.take (min len.toNat src.length)) with
    | none => exact Nat.zero_le _
    | some mem' =>
      have hrest := ih mem' (src.drop (min len.toNat src.length))
      simp only
      omega

/-- A `scatter` that fills its buffers has all of them in RAM. -/
theorem inRam_of_scattered {mem : GuestRam} {segs : List Seg} {src : List UInt8}
    {written n : UInt32} (hok : (scatterSegs mem segs src written).1 = .ok n)
    (hfull : scatterStored mem segs src = totalLen segs) : InRam mem segs := by
  induction segs generalizing mem src written with
  | nil => exact fun s hs => (nomatch hs)
  | cons s segs ih =>
    obtain ⟨addr, len⟩ := s
    rw [scatterSegs] at hok
    rw [scatterStored, totalLen_cons] at hfull
    cases hw : mem.write addr (src.take (min len.toNat src.length)) with
    | none =>
      rw [hw] at hok
      cases hok
    | some mem' =>
      simp only [hw] at hok hfull
      have hle := scatterStored_le_total mem' segs (src.drop (min len.toNat src.length))
      obtain ⟨hin, hreg, -⟩ := GuestRam.write_bytes hw
      have hlen : (src.take (min len.toNat src.length)).length = len.toNat := by
        rw [List.length_take]
        omega
      rw [hlen] at hin
      refine inRam_cons.mpr ⟨hin, fun t ht => ?_⟩
      rw [← GuestRam.contains_congr hreg]
      exact ih hok (by omega) t ht

/-- **`scatter` stores inside its buffers**, whether it fails or not. -/
theorem scatterSegs_outside (mem : GuestRam) (segs : List Seg) (src : List UInt8)
    (written : UInt32) :
    AgreeOff (Covered (spans segs)) mem.bytes (scatterSegs mem segs src written).2.bytes := by
  induction segs generalizing mem src written with
  | nil => exact AgreeOff.refl _ _
  | cons s segs ih =>
    obtain ⟨addr, len⟩ := s
    rw [scatterSegs]
    cases hw : mem.write addr (src.take (min len.toNat src.length)) with
    | none => exact AgreeOff.refl _ _
    | some mem' =>
      obtain ⟨-, -, hbytes⟩ := GuestRam.write_bytes hw
      have hhead : AgreeOff (Covered (spans ((addr, len) :: segs))) mem.bytes mem'.bytes := by
        rw [hbytes]
        refine (agreeOff_poke mem.bytes addr.toNat _).mono fun x hx => ?_
        refine mem_covered_cons.mpr (.inl ⟨hx.1, ?_⟩)
        have hlt := hx.2
        simp only [List.length_take] at hlt
        simp only [span]
        omega
      have htail := (ih mem' (src.drop (min len.toNat src.length))
        (written + UInt32.ofNat (min len.toNat src.length))).mono
        (B := Covered (spans ((addr, len) :: segs))) fun x hx => mem_covered_cons.mpr (.inr hx)
      exact hhead.trans htail

/-- A status byte stored where there is room for it, or inside another buffer. -/
theorem writeU8_offered {mem mem' : GuestRam} {ins : List Seg} {s : Seg} {v : UInt8}
    (hplace : 0 < s.2 ∨ s.1.toNat ∈ Covered (spans ins)) (h : mem.writeU8 s.1 v = some mem') :
    AgreeOff (Covered (spans (ins ++ [s]))) mem.bytes mem'.bytes := by
  obtain ⟨-, -, hbytes⟩ := GuestRam.write_bytes h
  rw [hbytes]
  refine (agreeOff_poke mem.bytes s.1.toNat [v]).mono fun x hx => ?_
  have hlo := hx.1
  have hhi := hx.2
  simp only [List.length_singleton] at hlo hhi
  have hx : x = s.1.toNat := by omega
  rw [spans_append, hx]
  refine mem_covered_append.mpr ?_
  rcases hplace with hroom | hin
  · have hpos := UInt32.lt_iff_toNat_lt.mp hroom
    have hzero : (0 : UInt32).toNat = 0 := rfl
    refine .inr (mem_covered_cons.mpr (.inl ⟨Nat.le_refl _, ?_⟩))
    simp only [span]
    omega
  · exact .inl hin

namespace VirtioBlk

variable {d : VirtioBlk} {mem : GuestRam} {haddr sector : UInt64} {typ : UInt32}
  {outs ins : List Seg}

/-- How many bytes the data part of a request stores. -/
def transferStored (d : VirtioBlk) (mem : GuestRam) (typ : UInt32) (sector : UInt64)
    (ins : List Seg) : ℕ :=
  if typ = virtioBlkTIn then
    match d.byteRange sector (UInt64.ofNat (totalLen ins)) with
    | .error _ => 0
    | .ok base =>
      match (d.file.readExactAt (totalLen ins) base.toNat).1 with
      | none => 0
      | some buf => scatterStored mem ins buf
  else if typ = virtioBlkTGetId then scatterStored mem ins d.serial.toList
  else 0

theorem transferData_getId :
    d.transferData mem virtioBlkTGetId sector outs ins = d.getIdRequest mem ins := by
  have hin : virtioBlkTGetId ≠ virtioBlkTIn := by decide
  have hout : virtioBlkTGetId ≠ virtioBlkTOut := by decide
  have hflush : virtioBlkTGetId ≠ virtioBlkTFlush := by decide
  rw [transferData, if_neg hin, if_neg fun h => hout h.1, if_neg fun h => hflush h.1, if_neg hout,
    if_neg hflush, if_pos rfl]

/-- Only a read and `GET_ID` write to the chain's buffers. -/
theorem deviceWritten_other {t : Transfer} (hin : typ ≠ virtioBlkTIn)
    (hid : typ ≠ virtioBlkTGetId) (h : (d.transferData mem typ sector outs ins).1 = .ok t) :
    t.deviceWritten = 0 := by
  rw [transferData, if_neg hin] at h
  split at h
  · injection h with h
    rw [← h]
  split at h
  · injection h with h
    rw [← h]
  split at h
  · unfold writeRequest at h
    split at h
    · cases h
    · split at h
      · cases h
      · simp only at h
        split at h
        · injection h with h
          rw [← h]
        · cases h
  split at h
  · unfold flushRequest at h
    simp only at h
    split at h
    · injection h with h
      rw [← h]
    · cases h
  injection h with h
  rw [← h]

/-- The data part counts what it stores, modulo 2³². -/
theorem transferData_written {t : Transfer}
    (h : (d.transferData mem typ sector outs ins).1 = .ok t) :
    t.deviceWritten = UInt32.ofNat (d.transferStored mem typ sector ins) := by
  by_cases hin : typ = virtioBlkTIn
  · rw [transferData, if_pos hin, readRequest] at h
    rw [transferStored, if_pos hin]
    cases hrange : d.byteRange sector (UInt64.ofNat (totalLen ins)) with
    | error e =>
      rw [hrange] at h
      cases h
    | ok base =>
      simp only [hrange] at h ⊢
      cases hread : (d.file.readExactAt (totalLen ins) base.toNat).1 with
      | none =>
        rw [hread] at h
        cases h
      | some buf =>
        simp only [hread] at h ⊢
        split at h
        · cases h
        · next n hsent =>
          injection h with h
          rw [← h, scatterSegs_written hsent, UInt32.zero_add]
  · by_cases hid : typ = virtioBlkTGetId
    · rw [hid, transferData_getId, getIdRequest] at h
      rw [transferStored, if_neg hin, if_pos hid]
      split at h
      · cases h
      · next n hsent =>
        injection h with h
        rw [← h, scatterSegs_written hsent, UInt32.zero_add]
    · rw [deviceWritten_other hin hid h, transferStored, if_neg hin, if_neg hid]
      rfl

/-- The data part of a request stores inside its buffers. -/
theorem transferData_outside (d : VirtioBlk) (mem : GuestRam) (typ : UInt32) (sector : UInt64)
    (outs ins : List Seg) :
    AgreeOff (Covered (spans ins)) mem.bytes (d.transferData mem typ sector outs ins).2.2.bytes ∧
      (d.transferData mem typ sector outs ins).2.2.regions = mem.regions := by
  have hsame := And.intro (AgreeOff.refl (Covered (spans ins)) mem.bytes) (Eq.refl mem.regions)
  have hscatter := fun src => And.intro (scatterSegs_outside mem ins src 0)
    (scatterSegs_regions mem ins src 0)
  unfold transferData
  split
  · unfold readRequest
    split
    · exact hsame
    · simp only
      split
      · exact hsame
      · next buf _ =>
        split
        · exact hscatter buf
        · exact hscatter buf
  split
  · exact hsame
  split
  · exact hsame
  split
  · unfold writeRequest
    split
    · exact hsame
    · split
      · exact hsame
      · simp only
        split
        · exact hsame
        · exact hsame
  split
  · unfold flushRequest
    simp only
    split
    · exact hsame
    · exact hsame
  split
  · unfold getIdRequest
    simp only
    split
    · exact hscatter d.serial.toList
    · exact hscatter d.serial.toList
  · exact hsame

theorem transferStored_le (d : VirtioBlk) (mem : GuestRam) (typ : UInt32) (sector : UInt64)
    (ins : List Seg) : d.transferStored mem typ sector ins ≤ totalLen ins := by
  unfold transferStored
  split
  · split
    · exact Nat.zero_le _
    · split
      · exact Nat.zero_le _
      · exact scatterStored_le_total _ _ _
  split
  · exact scatterStored_le_total _ _ _
  · exact Nat.zero_le _

/-- A request that fills the buffers of its data has all of them in RAM. -/
theorem inRam_of_transferred {t : Transfer} (hpos : 0 < totalLen ins)
    (hok : (d.transferData mem typ sector outs ins).1 = .ok t)
    (hfull : d.transferStored mem typ sector ins = totalLen ins) : InRam mem ins := by
  by_cases hin : typ = virtioBlkTIn
  · rw [transferData, if_pos hin, readRequest] at hok
    rw [transferStored, if_pos hin] at hfull
    cases hrange : d.byteRange sector (UInt64.ofNat (totalLen ins)) with
    | error e =>
      rw [hrange] at hok
      cases hok
    | ok base =>
      simp only [hrange] at hok hfull
      cases hread : (d.file.readExactAt (totalLen ins) base.toNat).1 with
      | none =>
        rw [hread] at hok
        cases hok
      | some buf =>
        simp only [hread] at hok hfull
        split at hok
        · cases hok
        · next n hsent => exact inRam_of_scattered hsent hfull
  · by_cases hid : typ = virtioBlkTGetId
    · rw [hid, transferData_getId, getIdRequest] at hok
      rw [transferStored, if_neg hin, if_pos hid] at hfull
      split at hok
      · cases hok
      · next n hsent => exact inRam_of_scattered hsent hfull
    · rw [transferStored, if_neg hin, if_neg hid] at hfull
      omega

/-! ### Chains -/

/-- The driver offers a place for the status byte `s` of a request with its header at
`haddr` and its data in `ins`.  An empty `s` is no harm if it is outside RAM, or inside
another buffer and no read can fill all of them and count the status byte besides; in both
cases there must be some byte to report. -/
def StatusOffered (mem : GuestRam) (haddr : UInt64) (ins : List Seg) (s : Seg) : Prop :=
  0 < s.2 ∨ 0 < totalLen ins ∧ (mem.contains s.1 1 = false ∨
    s.1.toNat ∈ Covered (spans ins) ∧
      ¬ (mem.contains haddr 4 = true ∧ mem.contains (haddr + 8) 8 = true ∧ InRam mem ins ∧
        totalLen ins + 1 < 2 ^ 32))

/-- The same for a chain, whose last writable buffer takes the status byte.  A chain
without readable or without writable buffers is not served. -/
def Offers (mem : GuestRam) (readable writable : List Seg) : Prop :=
  ∀ header ∈ readable.head?, ∀ s ∈ writable.getLast?, StatusOffered mem header.1 writable.dropLast s

/-- The chain changes guest memory inside its writable buffers only, and reports no more
bytes than they hold. -/
def StoresInside (d : VirtioBlk) (mem : GuestRam) (readable writable : List Seg) : Prop :=
  AgreeOff (Covered (spans writable)) mem.bytes (d.handleSegs mem readable writable).2.2.bytes ∧
    (d.handleSegs mem readable writable).1.toNat ≤ totalLen writable

section Offered

variable {s : Seg}

theorem totalLen_concat (ins : List Seg) (s : Seg) :
    totalLen (ins ++ [s]) = totalLen ins + s.2.toNat := by
  rw [totalLen_append, totalLen_cons]
  rfl

theorem StatusOffered.pos (h : StatusOffered mem haddr ins s) : 0 < totalLen (ins ++ [s]) := by
  rw [totalLen_concat]
  rcases h with hroom | ⟨hpos, -⟩
  · have := UInt32.lt_iff_toNat_lt.mp hroom
    have hzero : (0 : UInt32).toNat = 0 := rfl
    omega
  · omega

/-- A status byte that can be stored has a place. -/
theorem StatusOffered.place (h : StatusOffered mem haddr ins s)
    (hin : mem.contains s.1 1 = true) : 0 < s.2 ∨ s.1.toNat ∈ Covered (spans ins) := by
  rcases h with hroom | ⟨-, hout | ⟨hcov, -⟩⟩
  · exact .inl hroom
  · rw [hin] at hout
    cases hout
  · exact .inr hcov

/-- The count of a request that goes through, modulo 2³². -/
theorem StatusOffered.count (h : StatusOffered mem haddr ins s) {t : Transfer}
    (htyp : mem.readU32 haddr = some typ) (hsector : mem.readU64 (haddr + 8) = some sector)
    (hok : (d.transferData mem typ sector outs ins).1 = .ok t)
    (hin : mem.contains s.1 1 = true) :
    (t.deviceWritten + 1).toNat ≤ totalLen (ins ++ [s]) := by
  have hle := transferStored_le d mem typ sector ins
  have hone : (1 : UInt32).toNat = 1 := rfl
  rw [UInt32.toNat_add, transferData_written hok, UInt32.toNat_ofNat', hone, totalLen_concat]
  rcases h with hroom | ⟨hpos, hout | ⟨-, hnot⟩⟩
  · have hs := UInt32.lt_iff_toNat_lt.mp hroom
    have hzero : (0 : UInt32).toNat = 0 := rfl
    omega
  · rw [hin] at hout
    cases hout
  · by_cases hfull : d.transferStored mem typ sector ins = totalLen ins
    · -- the header was read and the buffers are filled, so it is the count that wraps
      have hwide : 2 ^ 32 ≤ totalLen ins + 1 := by
        by_contra hlt
        exact hnot ⟨GuestRam.contains_of_readU32 htyp, GuestRam.contains_of_readU64 hsector,
          inRam_of_transferred hpos hok hfull, by omega⟩
      omega
    · omega

theorem handleRequest_offered (d : VirtioBlk) (outs : List Seg)
    (h : StatusOffered mem haddr ins s) :
    AgreeOff (Covered (spans (ins ++ [s]))) mem.bytes
      (d.handleRequest mem haddr outs ins s.1).2.2.bytes ∧
    (d.handleRequest mem haddr outs ins s.1).2.2.regions = mem.regions ∧
    ∀ n, (d.handleRequest mem haddr outs ins s.1).1 = .ok n → n.toNat ≤ totalLen (ins ++ [s]) := by
  have hins : Covered (spans ins) ⊆ Covered (spans (ins ++ [s])) := by
    intro x hx
    rw [spans_append]
    exact mem_covered_append.mpr (.inl hx)
  unfold handleRequest
  split
  · next typ sector htyp hsector =>
    obtain ⟨hdata, hreg⟩ := transferData_outside d mem typ sector outs ins
    have hdata := hdata.mono hins
    simp only
    cases hres : (d.transferData mem typ sector outs ins).1 with
    | error e => exact ⟨hdata, hreg, fun n hn => by cases hn⟩
    | ok t =>
      simp only [finishRequest]
      cases hw : (d.transferData mem typ sector outs ins).2.2.writeU8 s.1 t.status with
      | none => exact ⟨hdata, hreg, fun n hn => by cases hn⟩
      | some mem' =>
        obtain ⟨hin, hreg', -⟩ := GuestRam.write_bytes hw
        have hin : mem.contains s.1 1 = true := (GuestRam.contains_congr hreg).symm.trans hin
        refine ⟨hdata.trans (writeU8_offered (h.place hin) hw), hreg'.trans hreg, fun n hn => ?_⟩
        injection hn with hn
        rw [← hn]
        exact h.count htyp hsector hres hin
  · exact ⟨AgreeOff.refl _ _, rfl, fun n hn => by cases hn⟩

theorem handleSegs_ok {header : Seg} {n : UInt32}
    (h : (d.handleRequest mem header.1 outs ins s.1).1 = .ok n) :
    d.handleSegs mem (header :: outs) (ins ++ [s]) =
      (n, (d.handleRequest mem header.1 outs ins s.1).2) := by
  simp only [handleSegs, List.getLast?_concat, List.dropLast_concat, h]

theorem handleSegs_error {header : Seg} {e : BlkError}
    (h : (d.handleRequest mem header.1 outs ins s.1).1 = .error e) :
    d.handleSegs mem (header :: outs) (ins ++ [s]) =
      (1, (d.handleRequest mem header.1 outs ins s.1).2.1,
        ((d.handleRequest mem header.1 outs ins s.1).2.2.writeU8 s.1 virtioBlkSIoerr).getD
          (d.handleRequest mem header.1 outs ins s.1).2.2) := by
  simp only [handleSegs, List.getLast?_concat, List.dropLast_concat, h]

/-- **A chain that offers a place for its status byte.** -/
theorem Offers.storesInside (d : VirtioBlk) {readable writable : List Seg}
    (h : Offers mem readable writable) : d.StoresInside mem readable writable := by
  rcases readable with - | ⟨header, outs⟩
  · exact ⟨AgreeOff.refl _ _, Nat.zero_le _⟩
  rcases List.eq_nil_or_concat writable with rfl | ⟨ins, s, rfl⟩
  · exact ⟨AgreeOff.refl _ _, Nat.zero_le _⟩
  rw [List.concat_eq_append] at h ⊢
  have hs : StatusOffered mem header.1 ins s := by
    have := h header rfl s (by simp)
    rwa [List.dropLast_concat] at this
  obtain ⟨hout, hreg, hle⟩ := handleRequest_offered d outs hs
  rw [StoresInside]
  cases hres : (d.handleRequest mem header.1 outs ins s.1).1 with
  | ok n =>
    rw [handleSegs_ok hres]
    exact ⟨hout, hle n hres⟩
  | error e =>
    rw [handleSegs_error hres]
    refine ⟨?_, hs.pos⟩
    cases hw : (d.handleRequest mem header.1 outs ins s.1).2.2.writeU8 s.1 virtioBlkSIoerr with
    | none => exact hout
    | some mem' =>
      have hin := (GuestRam.write_bytes hw).1
      have hin : mem.contains s.1 1 = true := (GuestRam.contains_congr hreg).symm.trans hin
      exact hout.trans (writeU8_offered (hs.place hin) hw)

/-! ### Chains that offer none -/

theorem handleRequest_ok {n : UInt32} {saddr : UInt64}
    (h : (d.handleRequest mem haddr outs ins saddr).1 = .ok n) :
    ∃ typ sector t, (d.transferData mem typ sector outs ins).1 = .ok t ∧
      n = t.deviceWritten + 1 := by
  unfold handleRequest at h
  split at h
  · next typ sector _ _ =>
    simp only at h
    cases hres : (d.transferData mem typ sector outs ins).1 with
    | error e =>
      rw [hres] at h
      cases h
    | ok t =>
      simp only [hres, finishRequest] at h
      split at h
      · cases h
      · injection h with h
        exact ⟨typ, sector, t, hres, h.symm⟩
  · cases h

/-- A served chain without a byte for data reports its status byte. -/
theorem used_one (d : VirtioBlk) (mem : GuestRam) (header : Seg) (outs : List Seg) (s : Seg)
    (hnone : totalLen ins = 0) : (d.handleSegs mem (header :: outs) (ins ++ [s])).1 = 1 := by
  cases hres : (d.handleRequest mem header.1 outs ins s.1).1 with
  | error e => rw [handleSegs_error hres]
  | ok n =>
    rw [handleSegs_ok hres]
    obtain ⟨typ, sector, t, ht, rfl⟩ := handleRequest_ok hres
    have hle := transferStored_le d mem typ sector ins
    rw [transferData_written ht, show d.transferStored mem typ sector ins = 0 by omega]
    rfl

/-- In memory full of `0xff` bytes the status byte can be told from what was there. -/
theorem status_stored (d : VirtioBlk) (header : Seg) (outs ins : List Seg)
    (hmem : mem.bytes = fun _ => 0xff) (hin : mem.contains s.1 1 = true) :
    (d.handleSegs mem (header :: outs) (ins ++ [s])).2.2.bytes s.1.toNat ≠ 0xff := by
  have hbyte : ∀ v, mem.writeU8 s.1 v = some { mem with bytes := poke mem.bytes s.1.toNat [v] } :=
    fun v => GuestRam.write_eq hin
  have hpoke : ∀ v, poke mem.bytes s.1.toNat [v] s.1.toNat = v := fun v =>
    poke_inside (k := 0) (by simp)
  cases htyp : mem.readU32 header.1 with
  | none =>
    have hreq : d.handleRequest mem header.1 outs ins s.1 = (.error .ram, d, mem) := by
      simp only [handleRequest, htyp]
    rw [handleSegs_error (e := .ram) (by rw [hreq]), hreq]
    simp only [hbyte, Option.getD_some, hpoke]
    decide
  | some typ =>
    cases hsector : mem.readU64 (header.1 + 8) with
    | none =>
      have hreq : d.handleRequest mem header.1 outs ins s.1 = (.error .ram, d, mem) := by
        simp only [handleRequest, htyp, hsector]
      rw [handleSegs_error (e := .ram) (by rw [hreq]), hreq]
      simp only [hbyte, Option.getD_some, hpoke]
      decide
    | some sector =>
      -- no request has the type `0xffffffff`
      have hall : typ = 0xffffffff := by
        have hpeek : peek (fun _ => (0xff : UInt8)) header.1.toNat 4 =
            [0xff, 0xff, 0xff, 0xff] := rfl
        rw [GuestRam.readU32, GuestRam.read_eq (GuestRam.contains_of_readU32 htyp), hmem,
          hpeek] at htyp
        exact (Option.some.inj htyp).symm.trans (by decide)
      have hdata : d.transferData mem typ sector outs ins =
          (.ok ⟨virtioBlkSUnsupp, 0, 0⟩, d, mem) := by
        subst hall
        rfl
      have hreq : d.handleRequest mem header.1 outs ins s.1 =
          (.ok 1, d.capture typ sector ⟨virtioBlkSUnsupp, 0, 0⟩,
            { mem with bytes := poke mem.bytes s.1.toNat [virtioBlkSUnsupp] }) := by
        simp only [handleRequest, htyp, hsector, hdata, finishRequest, hbyte]
        rfl
      rw [handleSegs_ok (n := 1) (by rw [hreq]), hreq]
      simp only [hpoke]
      decide

/-- A disk of zeros whose capacity is at least its `n` bytes. -/
def wholeDisk (n : ℕ) : VirtioBlk := sampleDevice ⟨List.replicate n 0, [], []⟩ (UInt64.ofNat n)

/-- The disk is read whole. -/
theorem wholeDisk_transferData (outs : List Seg) (hin : InRam mem ins) (hpos : 0 < totalLen ins)
    (hlt : totalLen ins < 2 ^ 32) :
    ((wholeDisk (totalLen ins)).transferData mem virtioBlkTIn 0 outs ins).1 =
      .ok ⟨virtioBlkSOk, UInt32.ofNat (totalLen ins), UInt64.ofNat (totalLen ins)⟩ := by
  have hlen : (UInt64.ofNat (totalLen ins)).toNat = totalLen ins := by
    rw [UInt64.toNat_ofNat', Nat.mod_eq_of_lt (by omega)]
  have hcap : (wholeDisk (totalLen ins)).capacitySectors.toNat = totalLen ins := hlen
  obtain ⟨base, hrange, hbase⟩ : ∃ base, (wholeDisk (totalLen ins)).byteRange 0
      (UInt64.ofNat (totalLen ins)) = .ok base ∧ base.toNat = 0 := by
    rcases byteRange_spec (d := wholeDisk (totalLen ins)) (by omega) 0
      (UInt64.ofNat (totalLen ins)) with ⟨base, hbase, heq, -⟩ | ⟨e, -, hnot⟩
    · exact ⟨base, hbase, by simpa using heq⟩
    · refine absurd ?_ hnot
      rw [hcap, hlen]
      have hz : (0 : UInt64).toNat = 0 := rfl
      omega
  have hgot : ((wholeDisk (totalLen ins)).file.readExactAt (totalLen ins) base.toNat).1 =
      some (List.replicate (totalLen ins) 0) := by
    have hfile : (wholeDisk (totalLen ins)).file = ⟨List.replicate (totalLen ins) 0, [], []⟩ := rfl
    rw [hbase, hfile, HostFile.readExactAt, if_neg (by omega)]
    simp
  rw [transferData, if_pos rfl, readRequest, hrange]
  simp only [hgot, scatterSegs_eq hin, List.length_replicate, Nat.min_self, UInt32.zero_add]

/-- A read of all of a disk counts one byte more than its buffers hold. -/
theorem read_overcounts (header : Seg) (outs : List Seg) (hmem : mem.bytes = fun _ => 0)
    (htyp : mem.contains header.1 4 = true) (hsector : mem.contains (header.1 + 8) 8 = true)
    (hin : InRam mem ins) (hs : mem.contains s.1 1 = true) (hpos : 0 < totalLen ins)
    (hsum : totalLen ins + 1 < 2 ^ 32) :
    ((wholeDisk (totalLen ins)).handleSegs mem (header :: outs) (ins ++ [s])).1.toNat =
      totalLen ins + 1 := by
  have hread : mem.readU32 header.1 = some virtioBlkTIn := by
    rw [GuestRam.readU32, GuestRam.read_eq htyp, hmem]
    rfl
  have hzero : mem.readU64 (header.1 + 8) = some 0 := by
    rw [GuestRam.readU64, GuestRam.read_eq hsector, hmem]
    rfl
  have hlt : totalLen ins < 2 ^ 32 := by omega
  have hregions :
      ((wholeDisk (totalLen ins)).transferData mem virtioBlkTIn 0 outs ins).2.2.regions =
        mem.regions :=
    (transferData_outside ..).2
  obtain ⟨d', mem', hfin, -⟩ := finishRequest_status
    ((wholeDisk (totalLen ins)).transferData mem virtioBlkTIn 0 outs ins).2.1 virtioBlkTIn 0
    ⟨virtioBlkSOk, UInt32.ofNat (totalLen ins), UInt64.ofNat (totalLen ins)⟩
    ((GuestRam.contains_congr hregions).trans hs)
  have hreq : ((wholeDisk (totalLen ins)).handleRequest mem header.1 outs ins s.1).1 =
      .ok (UInt32.ofNat (totalLen ins) + 1) := by
    simp only [handleRequest, hread, hzero, wholeDisk_transferData outs hin hpos hlt, hfin]
  have hone : (1 : UInt32).toNat = 1 := rfl
  rw [handleSegs_ok hreq, UInt32.toNat_add, UInt32.toNat_ofNat', hone, Nat.mod_eq_of_lt hlt,
    Nat.mod_eq_of_lt hsum]

/-- **A chain for which the device stores inside the buffers, whatever RAM and the disk
hold, offers a place for its status byte.** -/
theorem offers_of_storesInside {readable writable : List Seg}
    (h : ∀ (d : VirtioBlk) (bytes : ℕ → UInt8),
      d.StoresInside { mem with bytes } readable writable) :
    Offers mem readable writable := by
  intro header hheader s hs
  obtain ⟨outs, rfl⟩ := List.head?_eq_some_iff.mp hheader
  obtain ⟨ins, rfl⟩ := List.getLast?_eq_some_iff.mp hs
  rw [List.dropLast_concat]
  by_cases hroom : 0 < s.2
  · exact .inl hroom
  have hempty : s.2.toNat = 0 := by
    rw [UInt32.lt_iff_toNat_lt] at hroom
    have hzero : (0 : UInt32).toNat = 0 := rfl
    omega
  have hpos : 0 < totalLen ins := by
    by_contra hnone
    obtain ⟨-, hle⟩ := h (wholeDisk 0) (fun _ => 0)
    rw [used_one _ _ _ _ _ (by omega), totalLen_concat, hempty] at hle
    have hone : (1 : UInt32).toNat = 1 := rfl
    omega
  refine .inr ⟨hpos, ?_⟩
  by_cases hin : mem.contains s.1 1 = true
  · refine .inr ⟨?_, ?_⟩
    · by_contra hcov
      obtain ⟨hoff, -⟩ := h (wholeDisk 0) (fun _ => 0xff)
      have hfull : ({ mem with bytes := fun _ => 0xff } : GuestRam).bytes = fun _ => 0xff := rfl
      refine status_stored (wholeDisk 0) header outs ins hfull hin (hoff s.1.toNat fun hmem => ?_)
      rw [spans_append, mem_covered_append] at hmem
      rcases hmem with hmem | hmem
      · exact hcov hmem
      · -- an empty buffer covers no byte
        rcases mem_covered_cons.mp hmem with hmem | hmem
        · have hlt := hmem.2
          simp only [span, hempty] at hlt
          omega
        · simp [Covered] at hmem
    · rintro ⟨htyp, hsector, hins, hsum⟩
      obtain ⟨-, hle⟩ := h (wholeDisk (totalLen ins)) (fun _ => 0)
      have hblank : ({ mem with bytes := fun _ => 0 } : GuestRam).bytes = fun _ => 0 := rfl
      rw [read_overcounts header outs hblank htyp hsector hins hin hpos hsum, totalLen_concat,
        hempty] at hle
      omega
  · exact .inl (by simpa using hin)

end Offered

end VirtioBlk

/-- **The device stores what the driver offered.**  For every device, memory and head:
if the chain offers a place for its status byte, bytes outside its writable buffers keep
their value and the used length is at most what these hold.  And the condition is exact:
for any other chain there are contents of RAM and of the disk with which it fails. -/
theorem blk_writes_only_offered (mem : GuestRam) :
    (∀ (d : VirtioBlk) (head : UInt16),
      VirtioBlk.Offers mem (readable (d.queue.chain mem head).1)
        (writable (d.queue.chain mem head).1) →
      AgreeOff (Covered (spans (writable (d.queue.chain mem head).1))) mem.bytes
          (d.handleChain mem head).2.2.bytes ∧
        (d.handleChain mem head).2.2.regions = mem.regions ∧
        (d.handleChain mem head).1.toNat ≤ totalLen (writable (d.queue.chain mem head).1)) ∧
    ∀ readable writable : List Seg,
      (∀ (d : VirtioBlk) (bytes : ℕ → UInt8), d.StoresInside { mem with bytes } readable writable) ↔
      VirtioBlk.Offers mem readable writable := by
  refine ⟨fun d head h => ?_, fun readable writable => ⟨?_, fun h d bytes => ?_⟩⟩
  · obtain ⟨hout, hle⟩ := h.storesInside d
    exact ⟨hout, (VirtioBlk.handleChain_effect d mem head).regions, hle⟩
  · exact VirtioBlk.offers_of_storesInside
  · have hoffers : VirtioBlk.Offers { mem with bytes } readable writable := h
    exact hoffers.storesInside d

/-- The read of 512 bytes has a status buffer of one byte. -/
theorem blk_writes_only_offered_sample :
    (writable (sampleQueue.chain (bigRam (sampleImage 256)) 0).1).getLast? = some (0x40003010, 1) ∧
    AgreeOff (Covered (spans (writable (sampleQueue.chain (bigRam (sampleImage 256)) 0).1)))
      (sampleImage 256)
      ((sampleDevice ⟨List.replicate 1024 7, [], []⟩ 2).handleChain
        (bigRam (sampleImage 256)) 0).2.2.bytes := by
  have hlast : (writable (sampleQueue.chain (bigRam (sampleImage 256)) 0).1).getLast? =
      some (0x40003010, 1) := by
    have hchain : sampleQueue.chain (bigRam (sampleImage 256)) 0 =
        ((sampleChain 256).descs, .done) := by decide
    rw [hchain]
    decide +kernel
  refine ⟨hlast, ((blk_writes_only_offered (bigRam (sampleImage 256))).1
    (sampleDevice ⟨List.replicate 1024 7, [], []⟩ 2) 0 fun header _ s hs => ?_).1⟩
  have hs' : s ∈ (writable (sampleQueue.chain (bigRam (sampleImage 256)) 0).1).getLast? := hs
  rw [hlast, Option.mem_some] at hs'
  subst hs'
  exact .inl (by decide)

/-- RAM with a chain of a header and an empty buffer for the status, behind which
stands a byte `0xff`. -/
def emptyStatusImage : ℕ → UInt8 :=
  let descBytes := fun d : Desc =>
    leBytes 8 d.addr.toNat ++ leBytes 4 d.len.toNat ++ leBytes 2 d.flags.toNat ++
      leBytes 2 d.next.toNat
  poke (poke (fun _ => 0) 0x40000000
    (([⟨0x40003000, 16, 1, 1⟩, ⟨0x40003010, 0, 2, 0⟩] : List Desc).flatMap descBytes))
    0x40003010 [0xff]

/-- **An empty status buffer is overrun**: the chain offers nothing to write to, and the
device stores its status and reports one byte. -/
theorem blk_status_outside :
    writable (sampleQueue.chain (bigRam emptyStatusImage) 0).1 = [(0x40003010, 0)] ∧
    emptyStatusImage 0x40003010 = 0xff ∧
    ((sampleDevice ⟨[], [], []⟩ 0).handleChain (bigRam emptyStatusImage) 0).2.2.bytes 0x40003010 =
      0 ∧
    ((sampleDevice ⟨[], [], []⟩ 0).handleChain (bigRam emptyStatusImage) 0).1 = 1 := by
  refine ⟨by decide +kernel, by decide +kernel, by decide +kernel, by decide +kernel⟩
