/-
Guest physical RAM (`memory::guest`).

Guest RAM is one or more mapped regions with holes between them.  An access is
resolved to a single region before any byte moves, so it either happens in full
or is refused:

* `contains_sub` — a part of a contained range is contained, and its address is
  computed without wrapping;
* `readU16_isSome`, `writeU32_isSome`, … follow from it for the ring accesses;
* `write_bytes` — a write that succeeds is a `poke`, and keeps the regions.

The guest's own stores happen between the device's accesses.  They change
`bytes` and nothing else, so statements about runs let `bytes` be arbitrary.
-/
import HviVmm.ByteCodec
import HviVmm.ByteStore

open ByteCodec ByteStore

/-- One mapped span of guest-physical memory. -/
structure RamRegion where
  gpa : UInt64
  size : UInt64
  deriving DecidableEq, Repr

/-- Whether `[gpa, gpa + len)` lies in the region: `checked_sub` of the base,
`checked_add` of the length and the comparison with the size.  An overflowing
sum is above every size, so the comparison over `ℕ` refuses it too. -/
def RamRegion.holds (r : RamRegion) (gpa : UInt64) (len : ℕ) : Bool :=
  decide (r.gpa ≤ gpa) && decide (gpa.toNat - r.gpa.toNat + len ≤ r.size.toNat)

/-- Guest RAM: its regions in address order and the byte at each address.

A region never wraps the address space (`GuestRegionMmap::new` refuses it), and
the collection refuses overlapping regions. -/
structure GuestRam where
  regions : List RamRegion
  bytes : ℕ → UInt8
  fits : ∀ r ∈ regions, r.gpa.toNat + r.size.toNat < 2 ^ 64
  sorted : regions.Pairwise fun a b => a.gpa.toNat + a.size.toNat ≤ b.gpa.toNat

namespace GuestRam

/-- The region that holds all of `[gpa, gpa + len)`. -/
def slice (ram : GuestRam) (gpa : UInt64) (len : ℕ) : Option RamRegion :=
  ram.regions.find? fun r => r.holds gpa len

/-- The range lies in one region. -/
def contains (ram : GuestRam) (gpa : UInt64) (len : ℕ) : Bool :=
  (ram.slice gpa len).isSome

/-- Bytes of one region. -/
def read (ram : GuestRam) (gpa : UInt64) (len : ℕ) : Option (List UInt8) :=
  (ram.slice gpa len).map fun _ => peek ram.bytes gpa.toNat len

/-- Stores into one region. -/
def write (ram : GuestRam) (gpa : UInt64) (data : List UInt8) : Option GuestRam :=
  (ram.slice gpa data.length).map fun _ => { ram with bytes := poke ram.bytes gpa.toNat data }

def readU16 (ram : GuestRam) (gpa : UInt64) : Option UInt16 :=
  (ram.read gpa 2).map fun bs => UInt16.ofNat (leNat bs)

def readU32 (ram : GuestRam) (gpa : UInt64) : Option UInt32 :=
  (ram.read gpa 4).map fun bs => UInt32.ofNat (leNat bs)

def readU64 (ram : GuestRam) (gpa : UInt64) : Option UInt64 :=
  (ram.read gpa 8).map fun bs => UInt64.ofNat (leNat bs)

def writeU8 (ram : GuestRam) (gpa : UInt64) (v : UInt8) : Option GuestRam :=
  ram.write gpa [v]

def writeU16 (ram : GuestRam) (gpa : UInt64) (v : UInt16) : Option GuestRam :=
  ram.write gpa (leBytes 2 v.toNat)

def writeU32 (ram : GuestRam) (gpa : UInt64) (v : UInt32) : Option GuestRam :=
  ram.write gpa (leBytes 4 v.toNat)

variable {ram ram' : GuestRam} {gpa : UInt64} {len : ℕ} {data : List UInt8}

theorem contains_iff : ram.contains gpa len = true ↔
    ∃ r ∈ ram.regions, r.gpa.toNat ≤ gpa.toNat ∧ gpa.toNat + len ≤ r.gpa.toNat + r.size.toNat := by
  simp only [contains, slice, List.find?_isSome, RamRegion.holds, Bool.and_eq_true,
    decide_eq_true_eq, UInt64.le_iff_toNat_le]
  constructor
  · rintro ⟨r, hr, hle, hend⟩
    exact ⟨r, hr, hle, by omega⟩
  · rintro ⟨r, hr, hle, hend⟩
    exact ⟨r, hr, hle, by omega⟩

/-- A contained range ends inside the address space. -/
theorem contains_lt (h : ram.contains gpa len = true) : gpa.toNat + len < 2 ^ 64 := by
  obtain ⟨r, hr, -, hend⟩ := contains_iff.mp h
  have := ram.fits r hr
  omega

/-- **A part of a contained range is contained**, and the address of the part is
the mathematical sum: the addition does not wrap. -/
theorem contains_sub {o : UInt64} {k : ℕ} (h : ram.contains gpa len = true)
    (hk : o.toNat + k ≤ len) :
    (gpa + o).toNat = gpa.toNat + o.toNat ∧ ram.contains (gpa + o) k = true := by
  have hlt := contains_lt h
  have haddr : (gpa + o).toNat = gpa.toNat + o.toNat := by
    rw [UInt64.toNat_add]
    omega
  refine ⟨haddr, ?_⟩
  obtain ⟨r, hr, hle, hend⟩ := contains_iff.mp h
  exact contains_iff.mpr ⟨r, hr, by omega, by omega⟩

theorem contains_mono {k : ℕ} (h : ram.contains gpa len = true) (hk : k ≤ len) :
    ram.contains gpa k = true := by
  obtain ⟨r, hr, hle, hend⟩ := contains_iff.mp h
  exact contains_iff.mpr ⟨r, hr, hle, by omega⟩

/-- Containment is a property of the regions alone. -/
theorem contains_congr (h : ram.regions = ram'.regions) :
    ram.contains gpa len = ram'.contains gpa len := by
  rw [contains, contains, slice, slice, h]

theorem read_eq (h : ram.contains gpa len = true) :
    ram.read gpa len = some (peek ram.bytes gpa.toNat len) := by
  obtain ⟨r, hr⟩ := Option.isSome_iff_exists.mp h
  rw [read, hr]
  rfl

theorem read_eq_some {bs : List UInt8} (h : ram.read gpa len = some bs) :
    ram.contains gpa len = true ∧ bs = peek ram.bytes gpa.toNat len := by
  rw [read, Option.map_eq_some_iff] at h
  obtain ⟨r, hr, rfl⟩ := h
  exact ⟨Option.isSome_iff_exists.mpr ⟨r, hr⟩, rfl⟩

/-- Memories with the same regions read the same where they hold the same. -/
theorem read_congr (hr : ram'.regions = ram.regions)
    (hb : ram.contains gpa len = true →
      peek ram'.bytes gpa.toNat len = peek ram.bytes gpa.toNat len) :
    ram'.read gpa len = ram.read gpa len := by
  cases hc : ram.contains gpa len with
  | true =>
    rw [read_eq hc, read_eq ((contains_congr hr).trans hc), hb hc]
  | false =>
    have hc' : ram'.contains gpa len = false := (contains_congr hr).trans hc
    simp only [contains, Option.isSome_eq_false_iff, Option.isNone_iff_eq_none] at hc hc'
    rw [read, read, hc, hc']
    rfl

theorem write_eq (h : ram.contains gpa data.length = true) :
    ram.write gpa data = some { ram with bytes := poke ram.bytes gpa.toNat data } := by
  obtain ⟨r, hr⟩ := Option.isSome_iff_exists.mp h
  rw [write, hr]
  rfl

theorem write_isSome (h : ram.contains gpa data.length = true) :
    ∃ ram', ram.write gpa data = some ram' := ⟨_, write_eq h⟩

/-- A write that succeeds changes the bytes of its range and keeps the
regions. -/
theorem write_bytes (h : ram.write gpa data = some ram') :
    ram.contains gpa data.length = true ∧ ram'.regions = ram.regions ∧
      ram'.bytes = poke ram.bytes gpa.toNat data := by
  rw [write, Option.map_eq_some_iff] at h
  obtain ⟨r, hr, rfl⟩ := h
  exact ⟨Option.isSome_iff_exists.mpr ⟨r, hr⟩, rfl, rfl⟩

/-- A write whose failure is ignored keeps the regions too. -/
theorem getD_write_regions : ((ram.write gpa data).getD ram).regions = ram.regions := by
  cases hw : ram.write gpa data with
  | none => rfl
  | some ram' => exact (write_bytes hw).2.1

theorem readU16_isSome (h : ram.contains gpa 2 = true) : (ram.readU16 gpa).isSome = true := by
  rw [readU16, read_eq h]
  rfl

theorem readU32_isSome (h : ram.contains gpa 4 = true) : (ram.readU32 gpa).isSome = true := by
  rw [readU32, read_eq h]
  rfl

theorem readU64_isSome (h : ram.contains gpa 8 = true) : (ram.readU64 gpa).isSome = true := by
  rw [readU64, read_eq h]
  rfl

theorem contains_of_readU32 {v : UInt32} (h : ram.readU32 gpa = some v) :
    ram.contains gpa 4 = true := by
  obtain ⟨bs, hread, -⟩ := Option.map_eq_some_iff.mp h
  exact (read_eq_some hread).1

theorem contains_of_readU64 {v : UInt64} (h : ram.readU64 gpa = some v) :
    ram.contains gpa 8 = true := by
  obtain ⟨bs, hread, -⟩ := Option.map_eq_some_iff.mp h
  exact (read_eq_some hread).1

theorem writeU16_isSome {v : UInt16} (h : ram.contains gpa 2 = true) :
    (ram.writeU16 gpa v).isSome = true := by
  have hc : ram.contains gpa (leBytes 2 v.toNat).length = true := by simpa using h
  obtain ⟨ram', hw⟩ := write_isSome hc
  rw [writeU16, hw]
  rfl

theorem writeU32_isSome {v : UInt32} (h : ram.contains gpa 4 = true) :
    (ram.writeU32 gpa v).isSome = true := by
  have hc : ram.contains gpa (leBytes 4 v.toNat).length = true := by simpa using h
  obtain ⟨ram', hw⟩ := write_isSome hc
  rw [writeU32, hw]
  rfl

end GuestRam
