/-
Preparing an x86 guest to boot (`LoadedKernel::load` of `arch::x86_64::loader`).

The kernel file is loaded by a crate.  The loader describes the RAM in the e820 map, leaves the
range from the EBDA to 1 MiB out of it, and places the initramfs as high as it can in the region at
address 0.

* `LoadedKernel.load_places` — the initramfs is clear of the kernel, in low RAM for a kernel that
  takes up some memory, and below 4 GiB with at most 4 GiB of low RAM; the e820 entries are
  disjoint and cover the RAM but for that range;
* `load_crosses_4gib` — with more low RAM the initramfs may end past 4 GiB.
-/
import HviVmm.AlignedWords
import HviVmm.GuestRam
import HviVmm.ResultChain
import HviVmm.Spans

open ResultChain

/-! ### The crate -/

/-- The fields of the setup header that the loader reads or writes. -/
structure SetupHeader where
  bootFlag : UInt16 := 0
  header : UInt32 := 0
  version : UInt16 := 0
  typeOfLoader : UInt8 := 0
  ramdiskImage : UInt32 := 0
  ramdiskSize : UInt32 := 0
  cmdLinePtr : UInt32 := 0
  initSize : UInt32 := 0
  deriving DecidableEq

structure E820Entry where
  addr : UInt64
  size : UInt64
  type : UInt32
  deriving DecidableEq

/-- The zero page: the header and the entries in use of the e820 table. -/
structure X86BootParams where
  hdr : SetupHeader
  e820Table : List E820Entry

structure KernelLoaderResult where
  kernelLoad : UInt64
  kernelEnd : UInt64
  setupHeader : Option SetupHeader

/-- What the crate does with guest memory and the command line.  Each write gives the bytes of RAM
after it. -/
structure LinuxLoader where
  elfLoad : GuestRam → List UInt8 → UInt64 → Except String (KernelLoaderResult × (ℕ → UInt8))
  bzImageLoad : GuestRam → List UInt8 → UInt64 → Except String (KernelLoaderResult × (ℕ → UInt8))
  cmdlineTryFrom : List Char → ℕ → Except String (List UInt8)
  loadCmdline : GuestRam → UInt64 → List UInt8 → Except String (ℕ → UInt8)
  writeBootparams : GuestRam → X86BootParams → UInt64 → Except String (ℕ → UInt8)

/-! ### The loader -/

namespace X86Layout

def ramBase : UInt64 := 0x0
def zeroPage : UInt64 := 0x7000
def cmdlineAddr : UInt64 := 0x20000
def cmdlineMax : ℕ := 0x10000
def ebdaStart : UInt64 := 0x9fc00
def highMemStart : UInt64 := 0x100000
def kernelEntryOff : UInt64 := 0x200

end X86Layout

open X86Layout

def e820Ram : UInt32 := 1
def e820Entries : ℕ := 128
def headerMagic : UInt32 := 0x53726448
def bootFlag : UInt16 := 0xaa55
def synthesizedProtocol : UInt16 := 0x020c
def elfMag : List UInt8 := [0x7f, 0x45, 0x4c, 0x46]

inductive KernelFormat where
  | bzImage
  | vmlinux
  deriving DecidableEq

def KernelFormat.detect (kernel : List UInt8) : KernelFormat :=
  if elfMag <+: kernel then .vmlinux else .bzImage

inductive BootError where
  | noLowRam
  | vmlinux (e : String)
  | bzImage (e : String)
  | signature
  | cmdline (e : String)
  | writeCmdline (e : String)
  | e820Full
  | initrdOverlaps (initrdLen kernelRoom lowEnd : UInt64)
  | initrdAddress (addr : UInt64)
  | initrdSize (initrdLen : UInt64)
  | writeBootParams (e : String)

namespace BootError

def hex (n : UInt64) : String := "0x" ++ String.ofList (Nat.toDigits 16 n.toNat)

def message : BootError → String
  | noLowRam => "guest RAM has no region at address 0"
  | vmlinux e => "loading the vmlinux: " ++ e
  | bzImage e => "loading the bzImage: " ++ e
  | signature => "loading the bzImage: the boot sector signature is not 0xAA55"
  | cmdline e => "kernel command line: " ++ e
  | writeCmdline e => "writing the kernel command line: " ++ e
  | e820Full => "the e820 table is full"
  | initrdOverlaps initrdLen kernelRoom lowEnd =>
    "initramfs (" ++ hex initrdLen ++ " bytes) does not fit above the kernel (needs RAM through " ++
      hex kernelRoom ++ ") in low RAM (" ++ hex lowEnd ++ ")"
  | initrdAddress addr =>
    "initramfs address " ++ hex addr ++ " exceeds the 32-bit ramdisk_image field"
  | initrdSize initrdLen =>
    "initramfs (" ++ hex initrdLen ++ " bytes) exceeds the 32-bit ramdisk_size field"
  | writeBootParams e => "writing boot_params: " ++ e

end BootError

structure LoadedKernel where
  format : KernelFormat
  zeroPageAddr : UInt64
  initrdAddr : Option UInt64
  entry : UInt64
  deriving DecidableEq

/-- Appends an entry, of which the table holds 128. -/
def addE820 (table : List E820Entry) (addr size : UInt64) : Except BootError (List E820Entry) :=
  if table.length = e820Entries then .error .e820Full else .ok (table ++ [⟨addr, size, e820Ram⟩])

/-- Adds a region to the e820 map: low RAM in two parts, any other region as it is. -/
def addRegion (lowEnd : UInt64) (table : List E820Entry) (region : RamRegion) :
    Except BootError (List E820Entry) :=
  if region.gpa = ramBase then do
    let table ← addE820 table ramBase (min ebdaStart lowEnd)
    if highMemStart < lowEnd then addE820 table highMemStart (lowEnd - highMemStart) else .ok table
  else addE820 table region.gpa region.size

/-- `u64::saturating_sub`. -/
def saturatingSub64 (a b : UInt64) : UInt64 := if b ≤ a then a - b else 0

/-- The end of what the kernel takes up: its segments, and the space it decompresses into. -/
def kernelRoom (kernelLoad kernelEnd : UInt64) (initSize : UInt32) : UInt64 :=
  max kernelEnd (kernelLoad + initSize.toUInt64)

/-- The highest aligned address an initramfs can start at in low RAM. -/
def initrdTop (lowEnd initrdLen : UInt64) : UInt64 :=
  saturatingSub64 lowEnd initrdLen &&& ~~~0x1fffff

/-- Where the initramfs goes, if there is one. -/
def placeInitrd (lowEnd room initrdLen : UInt64) : Except BootError (Option UInt64) :=
  if initrdLen = 0 then .ok none
  else if initrdTop lowEnd initrdLen < room then .error (.initrdOverlaps initrdLen room lowEnd)
  else if 0xffffffff < initrdTop lowEnd initrdLen then
    .error (.initrdAddress (initrdTop lowEnd initrdLen))
  else if 0xffffffff < initrdLen then .error (.initrdSize initrdLen)
  else .ok (some (initrdTop lowEnd initrdLen))

def loadKernel (crate : LinuxLoader) (mem : GuestRam) (kernel : List UInt8) :
    Except BootError (KernelLoaderResult × KernelFormat × (ℕ → UInt8)) :=
  match KernelFormat.detect kernel with
  | .vmlinux =>
    match crate.elfLoad mem kernel highMemStart with
    | .error e => .error (.vmlinux e)
    | .ok (loaded, bytes) => .ok (loaded, .vmlinux, bytes)
  | .bzImage =>
    match crate.bzImageLoad mem kernel highMemStart with
    | .error e => .error (.bzImage e)
    | .ok (loaded, bytes) =>
      if loaded.setupHeader.any (fun hdr => hdr.bootFlag != bootFlag) then .error .signature
      else .ok (loaded, .bzImage, bytes)

/-- The header of the image, or one with what the kernel's entry reads. -/
def baseHeader (loaded : KernelLoaderResult) : SetupHeader :=
  { loaded.setupHeader.getD
      { bootFlag := bootFlag, header := headerMagic, version := synthesizedProtocol } with
    typeOfLoader := 0xff }

/-- The length of the region at address 0. -/
def lowEnd (mem : GuestRam) : Except BootError UInt64 :=
  match mem.regions.find? fun r => r.gpa = ramBase with
  | some region => .ok region.size
  | none => .error .noLowRam

namespace LoadedKernel

/-- The loaded kernel, with the zero page that was written and RAM after it. -/
def load (crate : LinuxLoader) (mem : GuestRam) (kernel : List UInt8) (cmdline : List Char)
    (initrdLen : UInt64) : Except BootError (LoadedKernel × X86BootParams × GuestRam) := do
  let lowEnd ← lowEnd mem
  let (loaded, format, bytes) ← loadKernel crate mem kernel
  let mem := { mem with bytes }
  let hdr := baseHeader loaded
  let cmdline ← (crate.cmdlineTryFrom cmdline cmdlineMax).mapError .cmdline
  let bytes ← (crate.loadCmdline mem cmdlineAddr cmdline).mapError .writeCmdline
  let mem := { mem with bytes }
  let hdr := { hdr with cmdLinePtr := cmdlineAddr.toUInt32 }
  let e820Table ← mem.regions.foldlM (addRegion lowEnd) []
  let initrdAddr ←
    placeInitrd lowEnd (kernelRoom loaded.kernelLoad loaded.kernelEnd hdr.initSize) initrdLen
  let hdr :=
    match initrdAddr with
    | some addr => { hdr with ramdiskImage := addr.toUInt32, ramdiskSize := initrdLen.toUInt32 }
    | none => hdr
  let bytes ← (crate.writeBootparams mem ⟨hdr, e820Table⟩ zeroPage).mapError .writeBootParams
  let entry :=
    match format with
    | .bzImage => loaded.kernelLoad + kernelEntryOff
    | .vmlinux => loaded.kernelLoad
  return (⟨format, zeroPage, initrdAddr, entry⟩, ⟨hdr, e820Table⟩, { mem with bytes })

end LoadedKernel

/-! ### The e820 map -/

def E820Entry.span (e : E820Entry) : Span := ⟨e.addr.toNat, e.addr.toNat + e.size.toNat⟩

def RamRegion.span (r : RamRegion) : Span := ⟨r.gpa.toNat, r.gpa.toNat + r.size.toNat⟩

/-- The entries for a region. -/
def regionEntries (lowEnd : UInt64) (r : RamRegion) : List E820Entry :=
  if r.gpa = ramBase then
    ⟨ramBase, min ebdaStart lowEnd, e820Ram⟩ ::
      if highMemStart < lowEnd then [⟨highMemStart, lowEnd - highMemStart, e820Ram⟩] else []
  else [⟨r.gpa, r.size, e820Ram⟩]

theorem addE820_ok {table table' : List E820Entry} {addr size : UInt64}
    (h : addE820 table addr size = .ok table') : table' = table ++ [⟨addr, size, e820Ram⟩] := by
  unfold addE820 at h
  split at h
  · cases h
  · exact (Except.ok.inj h).symm

theorem addRegion_ok {lowEnd : UInt64} {table table' : List E820Entry} {r : RamRegion}
    (h : addRegion lowEnd table r = .ok table') : table' = table ++ regionEntries lowEnd r := by
  unfold addRegion at h
  unfold regionEntries
  by_cases hr : r.gpa = ramBase
  · rw [if_pos hr] at h ⊢
    obtain ⟨mid, hmid, h⟩ := ok_of_bind h
    rw [addE820_ok hmid] at h
    by_cases hhigh : highMemStart < lowEnd
    · rw [if_pos hhigh] at h ⊢
      rw [addE820_ok h]
      simp
    · rw [if_neg hhigh] at h ⊢
      exact (Except.ok.inj h).symm
  · rw [if_neg hr] at h ⊢
    exact addE820_ok h

theorem e820_ok {lowEnd : UInt64} {regions : List RamRegion} {table table' : List E820Entry}
    (h : regions.foldlM (addRegion lowEnd) table = .ok table') :
    table' = table ++ regions.flatMap (regionEntries lowEnd) := by
  induction regions generalizing table with
  | nil => simpa using (Except.ok.inj h).symm
  | cons r rs ih =>
    rw [List.foldlM_cons] at h
    obtain ⟨mid, hmid, h⟩ := ok_of_bind h
    rw [ih h, addRegion_ok hmid, List.flatMap_cons, List.append_assoc]

section Region

variable {lowEnd : UInt64} {r : RamRegion} (hlow : r.gpa = ramBase → r.size = lowEnd)

theorem toNat_min_ebda (lowEnd : UInt64) :
    (min ebdaStart lowEnd).toNat = min 0x9fc00 lowEnd.toNat := by
  show (if ebdaStart ≤ lowEnd then ebdaStart else lowEnd).toNat = _
  split
  · next h =>
    have : (0x9fc00 : ℕ) ≤ lowEnd.toNat := UInt64.le_iff_toNat_le.mp h
    exact (Nat.min_eq_left this).symm
  · next h =>
    have : ¬ (0x9fc00 : ℕ) ≤ lowEnd.toNat := fun hle => h (UInt64.le_iff_toNat_le.mpr hle)
    exact (Nat.min_eq_right (by omega)).symm

include hlow

/-- **The entries for a region** are in order and inside it, and leave out the range from the EBDA
to 1 MiB of low RAM only. -/
theorem regionEntries_spec :
    (regionEntries lowEnd r).Pairwise (fun e e' => e.span.hi ≤ e'.span.lo) ∧
      (∀ e ∈ regionEntries lowEnd r, e.span.Within r.span) ∧
      ∀ x, (∃ e ∈ regionEntries lowEnd r, e.span.Has x) ↔
        r.span.Has x ∧ ¬ (r.gpa = ramBase ∧ (⟨0x9fc00, 0x100000⟩ : Span).Has x) := by
  unfold regionEntries
  by_cases hr : r.gpa = ramBase
  · have hregion : r.span = ⟨0, lowEnd.toNat⟩ := by
      rw [RamRegion.span, hr, hlow hr, show ramBase.toNat = 0 from rfl, Nat.zero_add]
    have hfirst : (E820Entry.mk ramBase (min ebdaStart lowEnd) e820Ram).span =
        ⟨0, min 0x9fc00 lowEnd.toNat⟩ := by
      rw [E820Entry.span, toNat_min_ebda, show ramBase.toNat = 0 from rfl, Nat.zero_add]
    rw [if_pos hr, hregion]
    by_cases hhigh : highMemStart < lowEnd
    · have hlt : 0x100000 < lowEnd.toNat := UInt64.lt_iff_toNat_lt.mp hhigh
      have hsecond : (E820Entry.mk highMemStart (lowEnd - highMemStart) e820Ram).span =
          ⟨0x100000, lowEnd.toNat⟩ := by
        have hle : highMemStart ≤ lowEnd := UInt64.le_iff_toNat_le.mpr hlt.le
        rw [E820Entry.span, UInt64.toNat_sub_of_le _ _ hle, show highMemStart.toNat =
          0x100000 from rfl, Nat.add_sub_cancel' hlt.le]
      rw [if_pos hhigh]
      refine ⟨List.pairwise_cons.mpr ⟨fun e he => ?_, List.pairwise_singleton _ _⟩, fun e he => ?_,
        fun x => ?_⟩
      · rw [List.mem_singleton.mp he, hfirst, hsecond]
        exact (Nat.min_le_left _ _).trans (show 0x9fc00 ≤ 0x100000 by decide)
      · rcases List.mem_cons.mp he with rfl | he
        · rw [hfirst]
          exact ⟨le_rfl, Nat.min_le_right _ _⟩
        · rw [List.mem_singleton.mp he, hsecond]
          exact ⟨Nat.zero_le _, le_rfl⟩
      · simp only [List.mem_cons, List.not_mem_nil, or_false, exists_eq_or_imp, exists_eq_left,
          hfirst, hsecond, Span.Has, hr, true_and]
        omega
    · have hle : lowEnd.toNat ≤ 0x100000 := by
        rw [UInt64.lt_iff_toNat_lt, show highMemStart.toNat = 0x100000 from rfl] at hhigh
        omega
      rw [if_neg hhigh]
      refine ⟨List.pairwise_singleton _ _, fun e he => ?_, fun x => ?_⟩
      · rw [List.mem_singleton.mp he, hfirst]
        exact ⟨le_rfl, Nat.min_le_right _ _⟩
      · simp only [List.mem_singleton, exists_eq_left, hfirst, Span.Has, hr, true_and]
        omega
  · rw [if_neg hr]
    refine ⟨List.pairwise_singleton _ _, fun e he => ?_, fun x => ?_⟩
    · rw [List.mem_singleton.mp he]
      exact ⟨le_rfl, le_rfl⟩
    · simp [hr, RamRegion.span, E820Entry.span]

end Region

/-- **The e820 map of RAM** whose region at address 0 has the length `lowEnd`. -/
theorem e820_covers {lowEnd : UInt64} {regions : List RamRegion}
    (hsorted : regions.Pairwise fun a b => a.gpa.toNat + a.size.toNat ≤ b.gpa.toNat)
    (hlow : ∀ r ∈ regions, r.gpa = ramBase → r.size = lowEnd) :
    ((regions.flatMap (regionEntries lowEnd)).map E820Entry.span).Pairwise Span.Disjoint ∧
      ∀ x, (∃ e ∈ regions.flatMap (regionEntries lowEnd), e.span.Has x) ↔
        ∃ r ∈ regions, r.span.Has x ∧ ¬ (r.gpa = ramBase ∧ (⟨0x9fc00, 0x100000⟩ : Span).Has x) := by
  have hspec := fun r hr => regionEntries_spec (hlow r hr)
  refine ⟨Span.disjoint_of_ordered ?_, fun x => ?_⟩
  · rw [List.pairwise_map, List.pairwise_flatMap]
    refine ⟨fun r hr => (hspec r hr).1, hsorted.imp_of_mem ?_⟩
    intro a b ha hb hab e he e' he'
    -- an entry ends with its region at the latest, and starts with its region at the earliest
    have hend := ((hspec a ha).2.1 e he).2
    have hstart := ((hspec b hb).2.1 e' he').1
    exact hend.trans (le_trans hab hstart)
  · constructor
    · rintro ⟨e, he, hx⟩
      obtain ⟨r, hr, he⟩ := List.mem_flatMap.mp he
      exact ⟨r, hr, ((hspec r hr).2.2 x).mp ⟨e, he, hx⟩⟩
    · rintro ⟨r, hr, hx⟩
      obtain ⟨e, he, hx⟩ := ((hspec r hr).2.2 x).mpr hx
      exact ⟨e, List.mem_flatMap.mpr ⟨r, hr, he⟩, hx⟩

/-! ### The initramfs -/

theorem toNat_max (a b : UInt64) : (max a b).toNat = max a.toNat b.toNat := by
  show (if a ≤ b then b else a).toNat = _
  split
  · next h => exact (Nat.max_eq_right (UInt64.le_iff_toNat_le.mp h)).symm
  · next h =>
    rw [UInt64.le_iff_toNat_le] at h
    exact (Nat.max_eq_left (by omega)).symm

theorem toNat_saturatingSub64 (a b : UInt64) : (saturatingSub64 a b).toNat = a.toNat - b.toNat := by
  unfold saturatingSub64
  split
  · next h => exact UInt64.toNat_sub_of_le _ _ h
  · next h =>
    rw [UInt64.le_iff_toNat_le] at h
    show 0 = _
    omega

theorem placeInitrd_ok {lowEnd room initrdLen : UInt64} {slot : Option UInt64}
    (h : placeInitrd lowEnd room initrdLen = .ok slot) :
    slot = (if initrdLen = 0 then none else some (initrdTop lowEnd initrdLen)) ∧
      (initrdLen ≠ 0 → room.toNat ≤ (initrdTop lowEnd initrdLen).toNat ∧
        (initrdTop lowEnd initrdLen).toNat < 2 ^ 32 ∧ initrdLen.toNat < 2 ^ 32) := by
  unfold placeInitrd at h
  split at h
  · next hzero => exact ⟨((if_pos hzero).trans (Except.ok.inj h)).symm, fun hne => absurd hzero hne⟩
  · next hne =>
    split at h
    · cases h
    · next hroom =>
      split at h
      · cases h
      · next haddr =>
        split at h
        · cases h
        · next hlen =>
          refine ⟨((if_neg hne).trans (Except.ok.inj h)).symm, fun _ => ?_⟩
          rw [UInt64.lt_iff_toNat_lt] at hroom haddr hlen
          rw [show (0xffffffff : UInt64).toNat = 2 ^ 32 - 1 from rfl] at haddr hlen
          exact ⟨by omega, by omega, by omega⟩

theorem toNat_initrdTop (lowEnd initrdLen : UInt64) :
    (initrdTop lowEnd initrdLen).toNat = (lowEnd.toNat - initrdLen.toNat) / 2 ^ 21 * 2 ^ 21 := by
  rw [initrdTop, AlignedWords.toNat_and_not_low (k := 21) rfl, toNat_saturatingSub64]

/-- What the kernel takes up, in exact arithmetic. -/
def kernelSpan (kernelLoad kernelEnd : UInt64) (initSize : UInt32) : Span :=
  ⟨kernelLoad.toNat, max kernelEnd.toNat (kernelLoad.toNat + initSize.toNat)⟩

/-- **A placed initramfs** is aligned and clear of the kernel, and inside low RAM if the kernel
takes up some memory; without one it may start at address 0 and be longer. -/
theorem placeInitrd_clear {lowEnd kernelLoad kernelEnd initrdLen addr : UInt64} {initSize : UInt32}
    (h : placeInitrd lowEnd (kernelRoom kernelLoad kernelEnd initSize) initrdLen =
      .ok (some addr)) :
    addr.toNat % 0x200000 = 0 ∧
      (kernelRoom kernelLoad kernelEnd initSize ≠ 0 → addr.toNat + initrdLen.toNat ≤ lowEnd.toNat) ∧
      (lowEnd.toNat ≤ 2 ^ 32 → addr.toNat + initrdLen.toNat ≤ 2 ^ 32) ∧
      (⟨addr.toNat, addr.toNat + initrdLen.toNat⟩ : Span).Disjoint
        (kernelSpan kernelLoad kernelEnd initSize) := by
  obtain ⟨hslot, hbounds⟩ := placeInitrd_ok h
  have hne : initrdLen ≠ 0 := fun hzero => by rw [if_pos hzero] at hslot; cases hslot
  rw [if_neg hne] at hslot
  obtain rfl := Option.some.inj hslot
  obtain ⟨habove, haddr, hlen⟩ := hbounds hne
  have hvalue := toNat_initrdTop lowEnd initrdLen
  have hroomEq : (kernelRoom kernelLoad kernelEnd initSize).toNat =
      max kernelEnd.toNat ((kernelLoad.toNat + initSize.toNat) % 2 ^ 64) := by
    rw [kernelRoom, toNat_max, UInt64.toNat_add]
    rfl
  have hinit : initSize.toNat < 2 ^ 32 := initSize.toNat_lt
  refine ⟨by omega, fun hroom => ?_, fun hlow => by omega, fun x hx hk => ?_⟩
  · have hpos : 0 < (kernelRoom kernelLoad kernelEnd initSize).toNat :=
      Nat.pos_of_ne_zero fun hzero => hroom (UInt64.toNat_inj.mp hzero)
    omega
  obtain ⟨hlo, hhi⟩ := hx
  obtain ⟨hklo, hkhi⟩ := hk
  change kernelLoad.toNat ≤ x at hklo
  change x < max kernelEnd.toNat (kernelLoad.toNat + initSize.toNat) at hkhi
  change (initrdTop lowEnd initrdLen).toNat ≤ x at hlo
  change x < (initrdTop lowEnd initrdLen).toNat + initrdLen.toNat at hhi
  -- a sum that wraps is one of a kernel far above the initramfs
  omega

/-! ### Loading -/

/-- One of the regions ends before the other starts. -/
def RamRegion.Apart (a b : RamRegion) : Prop :=
  a.gpa.toNat + a.size.toNat ≤ b.gpa.toNat ∨ b.gpa.toNat + b.size.toNat ≤ a.gpa.toNat

instance : Std.Symm RamRegion.Apart := ⟨fun _ _ h => h.symm⟩

namespace LoadedKernel

variable {crate : LinuxLoader} {mem mem' : GuestRam} {kernel : List UInt8} {cmdline : List Char}
  {initrdLen : UInt64} {k : LoadedKernel} {params : X86BootParams}

theorem load_ok (h : load crate mem kernel cmdline initrdLen = .ok (k, params, mem')) :
    ∃ low loaded format bytes, lowEnd mem = .ok low ∧
      loadKernel crate mem kernel = .ok (loaded, format, bytes) ∧
      params.e820Table = mem.regions.flatMap (regionEntries low) ∧
      placeInitrd low (kernelRoom loaded.kernelLoad loaded.kernelEnd (baseHeader loaded).initSize)
        initrdLen = .ok k.initrdAddr := by
  obtain ⟨low, hlow, h⟩ := ok_of_bind h
  obtain ⟨⟨loaded, format, bytes⟩, hloaded, h⟩ := ok_of_bind h
  obtain ⟨line, -, h⟩ := ok_of_bind h
  obtain ⟨bytes', -, h⟩ := ok_of_bind h
  obtain ⟨table, htable, h⟩ := ok_of_bind h
  obtain ⟨initrdAddr, hinitrd, h⟩ := ok_of_bind h
  obtain ⟨bytes'', -, h⟩ := ok_of_bind h
  obtain ⟨rfl, hrest⟩ := Prod.mk.inj (Except.ok.inj h)
  obtain ⟨rfl, -⟩ := Prod.mk.inj hrest
  exact ⟨low, loaded, format, bytes, hlow, hloaded, e820_ok htable, hinitrd⟩

/-- The region at address 0, where no region is empty. -/
theorem lowEnd_ok {low : UInt64} (h : lowEnd mem = .ok low)
    (hsizes : ∀ r ∈ mem.regions, r.size ≠ 0) :
    (∃ r ∈ mem.regions, r.gpa = ramBase) ∧ ∀ r ∈ mem.regions, r.gpa = ramBase → r.size = low := by
  unfold lowEnd at h
  cases hfind : mem.regions.find? fun r => r.gpa = ramBase with
  | none =>
    rw [hfind] at h
    cases h
  | some region =>
    rw [hfind] at h
    obtain rfl := Except.ok.inj h
    have hmem := List.mem_of_find?_eq_some hfind
    have hbase : region.gpa = ramBase := by simpa using List.find?_some hfind
    refine ⟨⟨region, hmem, hbase⟩, fun r hr hr0 => ?_⟩
    by_contra hne
    -- of two regions at address 0 the first would be empty
    have hpos : 0 < region.size.toNat ∧ 0 < r.size.toNat :=
      ⟨Nat.pos_of_ne_zero fun hz => hsizes region hmem (UInt64.toNat_inj.mp hz),
        Nat.pos_of_ne_zero fun hz => hsizes r hr (UInt64.toNat_inj.mp hz)⟩
    have hapart : mem.regions.Pairwise RamRegion.Apart := mem.sorted.imp .inl
    have hordered : region.Apart r := hapart.forall hmem hr fun heq => hne (by rw [heq])
    rw [RamRegion.Apart, hbase, hr0] at hordered
    omega

/-- **Where things are placed.**  The initramfs starts at a multiple of 2 MiB and is clear of the
kernel.  It lies in low RAM if the kernel takes up some memory, and below 4 GiB if low RAM ends
there at the latest.  The e820 entries are disjoint, and cover the RAM but for the range from the
EBDA to 1 MiB of low RAM. -/
theorem load_places {loaded : KernelLoaderResult} {format : KernelFormat} {bytes : ℕ → UInt8}
    (h : load crate mem kernel cmdline initrdLen = .ok (k, params, mem'))
    (hloaded : loadKernel crate mem kernel = .ok (loaded, format, bytes))
    (hsizes : ∀ r ∈ mem.regions, r.size ≠ 0) :
    (k.initrdAddr = none ↔ initrdLen = 0) ∧
      (∀ addr, k.initrdAddr = some addr →
        let initrd : Span := ⟨addr.toNat, addr.toNat + initrdLen.toNat⟩
        addr.toNat % 0x200000 = 0 ∧
          initrd.Disjoint
            (kernelSpan loaded.kernelLoad loaded.kernelEnd (baseHeader loaded).initSize) ∧
          (kernelRoom loaded.kernelLoad loaded.kernelEnd (baseHeader loaded).initSize ≠ 0 →
            ∃ r ∈ mem.regions, r.gpa = ramBase ∧ initrd.Within r.span) ∧
          ((∀ r ∈ mem.regions, r.gpa = ramBase → r.size.toNat ≤ 2 ^ 32) → initrd.hi ≤ 2 ^ 32)) ∧
      (params.e820Table.map E820Entry.span).Pairwise Span.Disjoint ∧
      ∀ x, (∃ e ∈ params.e820Table, e.span.Has x) ↔
        ∃ r ∈ mem.regions, r.span.Has x ∧
        ¬ (r.gpa = ramBase ∧ (⟨0x9fc00, 0x100000⟩ : Span).Has x) := by
  obtain ⟨low, loaded', format', bytes', hlowEnd, hloaded', htable, hinitrd⟩ := load_ok h
  obtain ⟨rfl, -⟩ := Prod.mk.inj (Except.ok.inj (hloaded'.symm.trans hloaded))
  obtain ⟨⟨region, hregion, hbase⟩, hsize⟩ := lowEnd_ok hlowEnd hsizes
  refine ⟨?_, fun addr haddr => ?_, ?_⟩
  · rw [(placeInitrd_ok hinitrd).1]
    by_cases hzero : initrdLen = 0
    · exact iff_of_true (if_pos hzero) hzero
    · exact iff_of_false (by rw [if_neg hzero]; exact Option.some_ne_none _) hzero
  · rw [haddr] at hinitrd
    obtain ⟨haligned, hend, hbelow, hclear⟩ := placeInitrd_clear hinitrd
    have hsize' := hsize region hregion hbase
    refine ⟨haligned, hclear, fun hroom => ⟨region, hregion, hbase, ?_, ?_⟩, fun hlow => ?_⟩
    · show region.gpa.toNat ≤ addr.toNat
      rw [hbase]
      exact Nat.zero_le _
    · show addr.toNat + initrdLen.toNat ≤ region.gpa.toNat + region.size.toNat
      rw [hsize']
      have := hend hroom
      omega
    · have hsmall := hlow region hregion hbase
      rw [hsize'] at hsmall
      exact hbelow hsmall
  · rw [htable]
    exact e820_covers mem.sorted hsize

/-- A loader that finds a kernel at 1 MiB, as an ELF file. -/
def kernelAt1M : LinuxLoader where
  elfLoad mem _ highMem := .ok (⟨highMem, highMem + 0x800000, none⟩, mem.bytes)
  bzImageLoad _ _ _ := .error "not a bzImage"
  cmdlineTryFrom line _ := .ok (line.map fun c => c.toUInt8)
  loadCmdline mem _ _ := .ok mem.bytes
  writeBootparams mem _ _ := .ok mem.bytes

/-- One region of RAM from address 0 on. -/
def lowRam (size : UInt64) : GuestRam where
  regions := [⟨0, size⟩]
  bytes := fun _ => 0
  fits := by
    intro r hr
    rw [List.mem_singleton.mp hr]
    show 0 + size.toNat < 2 ^ 64
    have := size.toNat_lt
    omega
  sorted := List.pairwise_singleton _ _

theorem load_places_small :
    ∃ k params mem', load kernelAt1M (lowRam 0x10000000) elfMag [] 0x345678 =
      .ok (k, params, mem') ∧
      k.initrdAddr = some 0xfc00000 ∧
        (params.e820Table.map E820Entry.span).Pairwise Span.Disjoint := by
  have hsizes : ∀ r ∈ (lowRam 0x10000000).regions, r.size ≠ 0 := by decide
  have hloaded : loadKernel kernelAt1M (lowRam 0x10000000) elfMag =
      .ok (⟨0x100000, 0x900000, none⟩, .vmlinux, fun _ => 0) := rfl
  obtain ⟨k, params, mem', hload, haddr⟩ : ∃ k params mem',
      load kernelAt1M (lowRam 0x10000000) elfMag [] 0x345678 = .ok (k, params, mem') ∧
        k.initrdAddr = some 0xfc00000 := ⟨_, _, _, rfl, rfl⟩
  exact ⟨k, params, mem', hload, haddr, (load_places hload hloaded hsizes).2.2.1⟩

/-- With 5 GiB of low RAM, the header's fields hold the address and the length of an initramfs that
ends past 4 GiB. -/
theorem load_crosses_4gib :
    ∃ k params mem', load kernelAt1M (lowRam 0x140000000) elfMag [] 0x80000000 =
      .ok (k, params, mem') ∧ k.initrdAddr = some 0xc0000000 ∧ 0xc0000000 + 0x80000000 > 2 ^ 32 :=
  ⟨_, _, _, rfl, rfl, by decide⟩

end LoadedKernel
