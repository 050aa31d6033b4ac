/-
Placing the kernel, the devicetree and the initramfs of an arm64 guest
(`arch::aarch64::loader`, `GuestLayout` of `arch::aarch64::layout`).

The images are packed from the kernel on.  The devicetree records where the initramfs goes, which
depends on the length of the devicetree, so it is built twice.  The sums are made in wrapping 64-bit
arithmetic, from a size the kernel's header gives.

* `LoadedKernel.plan_disjoint` — the three ranges of a plan are computed without wrap-around, lie in
  RAM and are disjoint exactly if the exact sums stay below `2 ^ 64`, and the devicetree says where
  the initramfs is;
* `plan_wraps` — a header whose size wraps the first sum gets a devicetree below the kernel.
-/
import HviVmm.AlignedWords
import HviVmm.Fdt
import HviVmm.GuestRam
import HviVmm.ResultChain
import HviVmm.Spans

open ByteCodec AlignedWords ResultChain

namespace Aarch64

/-! ### The kernel -/

def imageMagic : ℕ := 0x644d5241
def legacyTextOffset : UInt64 := 0x80000
def provisionalDtbSize : UInt64 := 0x4000
def imageHeaderSize : ℕ := 64

inductive BootError where
  | tooShort (len : ℕ)
  | notImage
  | loader (e : String)
  | disagrees (placed loaded : UInt64)
  | entropy (what e : String)
  | devicetree (e : String)
  | overflowsRam (layout : GuestLayout) (top ramEnd : UInt64)

namespace BootError

def hex (n : UInt64) : String := "0x" ++ hexDigits n.toNat

/-- The address and the size of an image. -/
def extent (name : String) (addr size : UInt64) : String :=
  name ++ " " ++ hex addr ++ "+" ++ hex size

def message : BootError → String
  | tooShort len => "image too short for an arm64 Image header: " ++ toString len ++ " bytes"
  | notImage => "not an arm64 Image (a compressed Image.gz must be decompressed first)"
  | loader e => "loading the arm64 Image: " ++ e
  | disagrees placed loaded =>
    "kernel placement disagrees with linux-loader: " ++ hex placed ++ " vs " ++ hex loaded
  | entropy what e => "reading host entropy for the guest's " ++ what ++ ": " ++ e
  | devicetree e => "building the devicetree: " ++ e
  | overflowsRam layout top ramEnd =>
    "guest images overflow RAM: top " ++ hex top ++ " > ram_end " ++ hex ramEnd ++ " (" ++
      extent "kernel" layout.kernelAddr layout.kernelSize ++ ", " ++
      extent "dtb" layout.dtbAddr layout.dtbSize ++ ", " ++
      extent "initrd" layout.initrdAddr layout.initrdSize ++ ")"

end BootError

/-- Where the kernel is, and how much RAM it takes. -/
structure LoadedKernel where
  addr : UInt64
  size : UInt64
  deriving DecidableEq

/-- The loader for flat images: the address it loads to, by a checked sum with the base, and RAM
after it. -/
structure PeLoader where
  load : GuestRam → UInt64 → List UInt8 → Except String (UInt64 × (ℕ → UInt8))
  placed : ∀ mem base kernel addr bytes, load mem base kernel = .ok (addr, bytes) →
    ∃ offset : UInt64, addr.toNat = base.toNat + offset.toNat

/-- A little-endian field of the header. -/
def headerField (kernel : List UInt8) (offset len : ℕ) : ℕ := leNat ((kernel.drop offset).take len)

namespace LoadedKernel

def fromHeader (kernel : List UInt8) : Except BootError LoadedKernel :=
  if kernel.length < imageHeaderSize then .error (.tooShort kernel.length)
  else if headerField kernel 56 4 ≠ imageMagic then .error .notImage
  else
    let imageSize := (headerField kernel 16 8).toUInt64
    let textOffset :=
      if imageSize = 0 then legacyTextOffset else (headerField kernel 8 8).toUInt64
    .ok ⟨ramBase + textOffset, max imageSize kernel.length.toUInt64⟩

/-- The kernel, and RAM after it was loaded. -/
def load (pe : PeLoader) (mem : GuestRam) (kernel : List UInt8) :
    Except BootError (LoadedKernel × GuestRam) :=
  match pe.load mem ramBase kernel with
  | .error e => .error (.loader e)
  | .ok (loaded, bytes) =>
    match fromHeader kernel with
    | .error e => .error e
    | .ok placed =>
      if placed.addr ≠ loaded then .error (.disagrees placed.addr loaded)
      else .ok (placed, { mem with bytes })

end LoadedKernel

/-! ### The layout -/

namespace GuestLayout

def kernelAlign : UInt64 := 0x200000

def new (ramSize kernelAddr kernelSize dtbSize initrdSize : UInt64) : GuestLayout :=
  let dtbAddr := alignUp (kernelAddr + kernelSize) kernelAlign
  let initrdAddr := alignUp (dtbAddr + dtbSize) 0x1000
  { ramBase := Aarch64.ramBase, ramSize, kernelAddr, kernelSize, dtbAddr, dtbSize, initrdAddr,
    initrdSize }

def top (layout : GuestLayout) : UInt64 := layout.initrdEnd

def validate (layout : GuestLayout) : Except BootError Unit :=
  let ramEnd := layout.ramBase + layout.ramSize
  if ramEnd < layout.top then .error (.overflowsRam layout layout.top ramEnd) else .ok ()

end GuestLayout

structure Plan where
  layout : GuestLayout
  dtb : List UInt8

/-- What the host and the caller give to a plan. -/
structure PlanInput where
  ramSize : UInt64
  initrdSize : UInt64
  gic : GicLayout
  numCpus : UInt32
  cmdline : String
  devices : VirtioDevices
  /-- What the host's entropy source gives for the two seeds. -/
  rngSeed : Except String (List UInt8)
  kaslrSeed : Except String UInt64

namespace LoadedKernel

def plan (kernel : LoadedKernel) (writer : FdtWriter) (input : PlanInput) :
    Except BootError Plan := do
  let seed ← input.rngSeed.mapError (.entropy "rng-seed")
  let kaslrSeed ← input.kaslrSeed.mapError (.entropy "kaslr-seed")
  let build (layout : GuestLayout) : Except BootError (List UInt8) :=
    (writer.finish (fdtBuild layout input.gic input.numCpus input.cmdline input.devices seed
      kaslrSeed)).mapError .devicetree
  let provisional :=
    GuestLayout.new input.ramSize kernel.addr kernel.size provisionalDtbSize input.initrdSize
  let dtb ← build provisional
  let layout :=
    GuestLayout.new input.ramSize kernel.addr kernel.size dtb.length.toUInt64 input.initrdSize
  let dtb ← build layout
  layout.validate
  return { layout, dtb }

end LoadedKernel

/-! ### Exact sums -/

/-- Where the devicetree goes in exact arithmetic. -/
def exactDtb (kernel : LoadedKernel) : ℕ := roundUp 21 (kernel.addr.toNat + kernel.size.toNat)

/-- Where the initramfs goes after a devicetree of `dtbLen` bytes. -/
def exactInitrd (kernel : LoadedKernel) (dtbLen : ℕ) : ℕ := roundUp 12 (exactDtb kernel + dtbLen)

/-- The end of the last image. -/
def exactTop (kernel : LoadedKernel) (dtbLen : ℕ) (initrdSize : UInt64) : ℕ :=
  if initrdSize = 0 then exactInitrd kernel dtbLen
  else roundUp 12 (exactInitrd kernel dtbLen + initrdSize.toNat)

theorem exact_le (kernel : LoadedKernel) (dtbLen : ℕ) (initrdSize : UInt64) :
    kernel.addr.toNat + kernel.size.toNat ≤ exactDtb kernel ∧
      exactDtb kernel + dtbLen ≤ exactInitrd kernel dtbLen ∧
      exactInitrd kernel dtbLen + initrdSize.toNat ≤ exactTop kernel dtbLen initrdSize := by
  refine ⟨le_roundUp 21 _, le_roundUp 12 _, ?_⟩
  unfold exactTop
  split
  · next hzero =>
    rw [hzero, UInt64.toNat_zero, Nat.add_zero]
  · exact le_roundUp 12 _

theorem toNat_alignUp {v align : UInt64} {k : ℕ} (halign : (align - 1).toNat = 2 ^ k - 1)
    (hk : k ≤ 64) (h : roundUp k v.toNat < 2 ^ 64) :
      (alignUp v align).toNat = roundUp k v.toNat := by
  rw [alignUp, UInt64.sub_eq_add_neg, UInt64.add_assoc, ← UInt64.sub_eq_add_neg]
  exact toNat_add_and_not_low halign hk h

theorem roundUp_lt_of_alignUp {v align : UInt64} {k : ℕ} (halign : (align - 1).toNat = 2 ^ k - 1)
    (h : (alignUp v align).toNat ≠ 0) : roundUp k v.toNat < 2 ^ 64 := by
  rw [alignUp, UInt64.sub_eq_add_neg, UInt64.add_assoc, ← UInt64.sub_eq_add_neg] at h
  exact roundUp_lt_of_ne_zero halign h

section

variable {kernel : LoadedKernel} {dtbLen : ℕ} {ramSize initrdSize : UInt64} {layout : GuestLayout}
  (hlayout : layout = .new ramSize kernel.addr kernel.size dtbLen.toUInt64 initrdSize)

include hlayout

theorem toNat_dtbAddr (h : exactDtb kernel < 2 ^ 64) : layout.dtbAddr.toNat = exactDtb kernel := by
  subst hlayout
  have hle := le_roundUp 21 (kernel.addr.toNat + kernel.size.toNat)
  have hsum : (kernel.addr + kernel.size).toNat = kernel.addr.toNat + kernel.size.toNat := by
    rw [UInt64.toNat_add, Nat.mod_eq_of_lt (hle.trans_lt h)]
  rw [exactDtb, ← hsum] at h ⊢
  exact toNat_alignUp rfl (by decide) h

/-- The end of the devicetree. -/
theorem toNat_dtbEnd (h : exactDtb kernel + dtbLen < 2 ^ 64) :
    layout.dtbSize.toNat = dtbLen ∧
      (layout.dtbAddr + layout.dtbSize).toNat = exactDtb kernel + dtbLen := by
  have hlen : layout.dtbSize.toNat = dtbLen := by
    rw [hlayout]
    show (UInt64.ofNat dtbLen).toNat = dtbLen
    rw [UInt64.toNat_ofNat', Nat.mod_eq_of_lt (by omega)]
  refine ⟨hlen, ?_⟩
  rw [UInt64.toNat_add, hlen, toNat_dtbAddr hlayout (by omega), Nat.mod_eq_of_lt h]

theorem toNat_initrdAddr (h : exactInitrd kernel dtbLen < 2 ^ 64) :
    layout.initrdAddr.toNat = exactInitrd kernel dtbLen := by
  have hle : exactDtb kernel + dtbLen ≤ exactInitrd kernel dtbLen := le_roundUp 12 _
  have hend := (toNat_dtbEnd hlayout (hle.trans_lt h)).2
  rw [exactInitrd, ← hend] at h ⊢
  subst hlayout
  exact toNat_alignUp rfl (by decide) h

/-- **The addresses are the exact ones**, where the exact sums can be represented. -/
theorem new_exact (h : exactTop kernel dtbLen initrdSize < 2 ^ 64) :
    layout.dtbSize.toNat = dtbLen ∧ layout.dtbAddr.toNat = exactDtb kernel ∧
      layout.initrdAddr.toNat = exactInitrd kernel dtbLen ∧
      layout.initrdEnd.toNat = exactTop kernel dtbLen initrdSize := by
  obtain ⟨hdtbLe, hinitrdLe, htopLe⟩ := exact_le kernel dtbLen initrdSize
  have haddr := toNat_initrdAddr hlayout (by omega)
  refine ⟨(toNat_dtbEnd hlayout (by omega)).1, toNat_dtbAddr hlayout (by omega), haddr, ?_⟩
  have hend : (layout.initrdAddr + initrdSize).toNat =
      exactInitrd kernel dtbLen + initrdSize.toNat := by
    rw [UInt64.toNat_add, haddr, Nat.mod_eq_of_lt (by omega)]
  have hlast : layout.initrdEnd = if initrdSize = 0 then layout.initrdAddr
      else alignUp (layout.initrdAddr + initrdSize) 0x1000 := by rw [hlayout]; rfl
  rw [hlast]
  unfold exactTop at h ⊢
  split
  · exact haddr
  · next hne =>
    rw [if_neg hne, ← hend] at h
    rw [← hend]
    exact toNat_alignUp rfl (by decide) h

/-- The sums can be represented, where no address wraps. -/
theorem exactTop_lt (hkernel : kernel.addr.toNat + kernel.size.toNat < 2 ^ 64)
    (hdtb : 0 < layout.dtbAddr.toNat ∧ layout.dtbAddr.toNat + dtbLen < 2 ^ 64)
    (hinitrd : 0 < layout.initrdAddr.toNat ∧
      layout.initrdAddr.toNat + initrdSize.toNat ≤ layout.initrdEnd.toNat) :
    exactTop kernel dtbLen initrdSize < 2 ^ 64 := by
  have hdtbLt : exactDtb kernel < 2 ^ 64 := by
    have hsum : (kernel.addr + kernel.size).toNat = kernel.addr.toNat + kernel.size.toNat := by
      rw [UInt64.toNat_add, Nat.mod_eq_of_lt hkernel]
    rw [exactDtb, ← hsum]
    subst hlayout
    exact roundUp_lt_of_alignUp rfl hdtb.1.ne'
  have hinitrdLt : exactInitrd kernel dtbLen < 2 ^ 64 := by
    rw [toNat_dtbAddr hlayout hdtbLt] at hdtb
    rw [exactInitrd, ← (toNat_dtbEnd hlayout hdtb.2).2]
    subst hlayout
    exact roundUp_lt_of_alignUp rfl hinitrd.1.ne'
  unfold exactTop
  split
  · exact hinitrdLt
  · next hne =>
    have hlast : layout.initrdEnd = alignUp (layout.initrdAddr + initrdSize) 0x1000 := by
      rw [hlayout]
      exact if_neg hne
    have hfits := layout.initrdEnd.toNat_lt
    rw [toNat_initrdAddr hlayout hinitrdLt] at hinitrd
    have hsize : (layout.initrdAddr + initrdSize).toNat =
        exactInitrd kernel dtbLen + initrdSize.toNat := by
      rw [UInt64.toNat_add, toNat_initrdAddr hlayout hinitrdLt, Nat.mod_eq_of_lt (by omega)]
    rw [← hsize]
    exact roundUp_lt_of_alignUp rfl (by rw [← hlast]; omega)

end

/-! ### Plans -/

/-- The length of the devicetree: it takes the shapes of the calls, and those are the same for any
placement. -/
def FdtWriter.dtbLength (writer : FdtWriter) (input : PlanInput) : ℕ :=
  writer.size ((fdtBuild (.new input.ramSize 0 0 0 input.initrdSize) input.gic input.numCpus
    input.cmdline input.devices (input.rngSeed.toOption.getD [])
    (input.kaslrSeed.toOption.getD 0)).map FdtCall.shape)

namespace Plan

/-- The range of the kernel. -/
def image (p : Plan) : Span :=
  ⟨p.layout.kernelAddr.toNat, p.layout.kernelAddr.toNat + p.layout.kernelSize.toNat⟩

/-- The range of the blob. -/
def tree (p : Plan) : Span := ⟨p.layout.dtbAddr.toNat, p.layout.dtbAddr.toNat + p.dtb.length⟩

/-- The range of the initramfs. -/
def initrd (p : Plan) : Span := ⟨p.layout.initrdAddr.toNat, p.layout.initrdEnd.toNat⟩

/-- The three images are computed without wrap-around, lie in RAM and are pairwise disjoint. -/
structure Placed (p : Plan) (ram : Span) : Prop where
  exact : p.image.hi < 2 ^ 64 ∧ p.tree.hi < 2 ^ 64 ∧ ram.hi < 2 ^ 64 ∧
    p.layout.initrdAddr.toNat + p.layout.initrdSize.toNat ≤ p.initrd.hi
  within : p.image.Within ram ∧ p.tree.Within ram ∧ p.initrd.Within ram
  disjoint : p.image.Disjoint p.tree ∧ p.image.Disjoint p.initrd ∧ p.tree.Disjoint p.initrd

end Plan

namespace LoadedKernel

variable {kernel : LoadedKernel} {writer : FdtWriter} {input : PlanInput} {p : Plan}

/-- **What a plan that is made went through.**  Both devicetrees have the length that the shapes of
the calls give. -/
theorem plan_ok (h : kernel.plan writer input = .ok p) :
    p.dtb.length = writer.dtbLength input ∧
      p.layout = .new input.ramSize kernel.addr kernel.size p.dtb.length.toUInt64 input.initrdSize ∧
      p.layout.validate = .ok () ∧
      ∃ seed kaslrSeed, writer.finish (fdtBuild p.layout input.gic input.numCpus input.cmdline
        input.devices seed kaslrSeed) = .ok p.dtb := by
  obtain ⟨seed, hseed, h⟩ := ok_of_bind h
  obtain ⟨kaslrSeed, hkaslr, h⟩ := ok_of_bind h
  obtain ⟨first, hfirst, h⟩ := ok_of_bind h
  obtain ⟨second, hsecond, h⟩ := ok_of_bind h
  obtain ⟨_, hvalid, h⟩ := ok_of_bind h
  obtain rfl := Except.ok.inj h
  have hrng : input.rngSeed.toOption.getD [] = seed := by rw [ok_of_mapError hseed]; rfl
  have hkey : input.kaslrSeed.toOption.getD 0 = kaslrSeed := by rw [ok_of_mapError hkaslr]; rfl
  -- the base of RAM and the size of the initramfs are all of a layout that has a part in the shapes
  have hlength : ∀ (size : UInt64) (blob : List UInt8), writer.finish (fdtBuild (.new input.ramSize
      kernel.addr kernel.size size input.initrdSize) input.gic input.numCpus input.cmdline
      input.devices seed kaslrSeed) = .ok blob → blob.length = writer.dtbLength input := by
    intro size blob hblob
    have hshape := @fdtBuild_shape (.new input.ramSize 0 0 0 input.initrdSize) (.new input.ramSize
      kernel.addr kernel.size size input.initrdSize) rfl rfl input.gic input.numCpus input.cmdline
      input.devices seed kaslrSeed
    rw [writer.sized _ _ hblob, FdtWriter.dtbLength, hrng, hkey, hshape]
  have hfirstLen := hlength _ _ (ok_of_mapError hfirst)
  have hsecondLen := hlength _ _ (ok_of_mapError hsecond)
  refine ⟨hsecondLen, ?_, hvalid, seed, kaslrSeed, ok_of_mapError hsecond⟩
  show GuestLayout.new .. = GuestLayout.new ..
  rw [hfirstLen, hsecondLen]

theorem load_addr {pe : PeLoader} {mem mem' : GuestRam} {image : List UInt8}
    (h : load pe mem image = .ok (kernel, mem')) : ramBase.toNat ≤ kernel.addr.toNat := by
  unfold load at h
  split at h
  · cases h
  · next loaded bytes hpe =>
    split at h
    · cases h
    · next placed hheader =>
      split at h
      · cases h
      · next heq =>
        obtain ⟨rfl, -⟩ := Prod.mk.inj (Except.ok.inj h)
        obtain ⟨offset, hoffset⟩ := pe.placed _ _ _ _ _ hpe
        rw [not_not.mp heq, hoffset]
        exact Nat.le_add_right _ _

theorem validate_ok {layout : GuestLayout} (h : layout.validate = .ok ()) :
    layout.initrdEnd.toNat ≤ (layout.ramBase + layout.ramSize).toNat := by
  unfold GuestLayout.validate at h
  dsimp only at h
  split at h
  · cases h
  · next hnot =>
    rw [UInt64.lt_iff_toNat_lt] at hnot
    exact Nat.le_of_not_lt hnot

theorem mem_chosenNode {layout : GuestLayout} {bootargs : String} {seed : List UInt8}
    {kaslrSeed v : UInt64} :
    (.propertyU64 "linux,initrd-start" v ∈ chosenNode layout bootargs seed kaslrSeed ↔
        layout.initrdSize ≠ 0 ∧ v = layout.initrdAddr) ∧
      (.propertyU64 "linux,initrd-end" v ∈ chosenNode layout bootargs seed kaslrSeed ↔
        layout.initrdSize ≠ 0 ∧ v = layout.initrdEnd) := by
  by_cases hzero : layout.initrdSize = 0
  · simp [chosenNode, node, initrdProperties, hzero]
  · simp [chosenNode, node, initrdProperties, hzero]

/-- **The images of a plan do not overlap**, of a kernel that was loaded: nothing wraps, the ranges
of the kernel, the devicetree and the initramfs lie in RAM and are disjoint, exactly if the sums of
the layout stay below `2 ^ 64` in exact arithmetic.  The devicetree has the initramfs where it is
placed. -/
theorem plan_disjoint {pe : PeLoader} {mem mem' : GuestRam} {image : List UInt8}
    (hload : load pe mem image = .ok (kernel, mem')) (hplan : kernel.plan writer input = .ok p) :
    let l := p.layout
    (l.kernelAddr = kernel.addr ∧ l.kernelSize = kernel.size ∧ l.initrdSize = input.initrdSize) ∧
      (∃ seed kaslrSeed,
        writer.finish (fdtBuild l input.gic input.numCpus input.cmdline input.devices seed
          kaslrSeed) = .ok p.dtb ∧
        ∀ v, (.propertyU64 "linux,initrd-start" v ∈ chosenNode l input.cmdline seed kaslrSeed ↔
            l.initrdSize ≠ 0 ∧ v = l.initrdAddr) ∧
          (.propertyU64 "linux,initrd-end" v ∈ chosenNode l input.cmdline seed kaslrSeed ↔
            l.initrdSize ≠ 0 ∧ v = l.initrdEnd)) ∧
      (p.Placed ⟨ramBase.toNat, ramBase.toNat + input.ramSize.toNat⟩ ↔
        exactTop kernel (writer.dtbLength input) input.initrdSize < 2 ^ 64) := by
  obtain ⟨hlength, hlayout, hvalid, seed, kaslrSeed, hblob⟩ := plan_ok hplan
  rw [← hlength]
  obtain ⟨hram, hramSize, haddr, hsize, hinit⟩ : p.layout.ramBase = ramBase ∧
      p.layout.ramSize = input.ramSize ∧ p.layout.kernelAddr = kernel.addr ∧
      p.layout.kernelSize = kernel.size ∧ p.layout.initrdSize = input.initrdSize := by
    rw [hlayout]
    exact ⟨rfl, rfl, rfl, rfl, rfl⟩
  refine ⟨⟨haddr, hsize, hinit⟩, ⟨seed, kaslrSeed, hblob, fun v => mem_chosenNode⟩, ?_, ?_⟩
  · rintro ⟨⟨himage, htree, -, hend⟩, ⟨-, htreeIn, hinitrdIn⟩, -⟩
    have hpos : 0 < ramBase.toNat := by decide
    rw [Plan.image, haddr, hsize] at himage
    rw [hinit] at hend
    exact exactTop_lt hlayout himage ⟨hpos.trans_le htreeIn.1, htree⟩
      ⟨hpos.trans_le hinitrdIn.1, hend⟩
  · intro hfits
    obtain ⟨hlen, hdtb, hinitrd, htop⟩ := new_exact hlayout hfits
    obtain ⟨hkernelLe, hdtbLe, hinitrdLe⟩ := exact_le kernel p.dtb.length input.initrdSize
    have hbase := load_addr hload
    have hend := validate_ok hvalid
    -- a RAM end that wraps is below RAM, and so below every image
    have hramEnd : ramBase.toNat + input.ramSize.toNat < 2 ^ 64 ∧
        p.layout.initrdEnd.toNat ≤ ramBase.toNat + input.ramSize.toNat := by
      rw [hram, hramSize, UInt64.toNat_add] at hend
      have hsize := input.ramSize.toNat_lt
      omega
    refine ⟨?_, ?_, ?_⟩
    · rw [Plan.image, haddr, hsize, hinit]
      refine ⟨?_, ?_, hramEnd.1, ?_⟩ <;> dsimp only [Plan.tree, Plan.initrd] <;> omega
    · rw [Plan.image, haddr, hsize]
      refine ⟨⟨?_, ?_⟩, ⟨?_, ?_⟩, ?_, ?_⟩ <;> dsimp only [Plan.tree, Plan.initrd] <;> omega
    · rw [Plan.image, haddr, hsize]
      refine ⟨Span.disjoint_of_le ?_, Span.disjoint_of_le ?_, Span.disjoint_of_le ?_⟩ <;>
        dsimp only [Plan.tree, Plan.initrd] <;> omega

/-- A header that says how large the kernel is, and nothing else. -/
def sizedImage (textOffset imageSize : UInt64) : List UInt8 :=
  List.replicate 8 0 ++ leBytes 8 textOffset.toNat ++ leBytes 8 imageSize.toNat ++
    List.replicate 32 0 ++ leBytes 4 imageMagic ++ List.replicate 4 0

/-- A loader that puts the file where its header says. -/
def headerLoader : PeLoader where
  load mem base kernel :=
    let offset := (headerField kernel 8 8).toUInt64
    if base.toNat + offset.toNat < 2 ^ 64 then .ok (base + offset, mem.bytes) else .error "overflow"
  placed mem base kernel addr bytes h := by
    dsimp only at h
    split at h
    · next hlt =>
      obtain ⟨rfl, -⟩ := Prod.mk.inj (Except.ok.inj h)
      exact ⟨_, (UInt64.toNat_add ..).trans (Nat.mod_eq_of_lt hlt)⟩
    · cases h

/-- A writer whose blobs are all of one length. -/
def shortWriter : FdtWriter where
  finish _ := .ok [0xd0, 0x0d, 0xfe, 0xed]
  size _ := 4
  sized calls blob h := by
    rw [← Except.ok.inj h]
    rfl

def smallGuest : PlanInput where
  ramSize := 0x10000000
  initrdSize := 0x800000
  gic := ⟨.v3, 0x08000000, 0x10000, 0x080a0000, 0x20000⟩
  numCpus := 1
  cmdline := "console=ttyAMA0"
  devices := ⟨1, false, false, 0⟩
  rngSeed := .ok (List.replicate 64 1)
  kaslrSeed := .ok 7

/-- Guest RAM of the small guest. -/
def smallRam : GuestRam where
  regions := [⟨ramBase, 0x10000000⟩]
  bytes := fun _ => 0
  fits := by
    intro r hr
    rw [List.mem_singleton.mp hr]
    decide
  sorted := List.pairwise_singleton _ _

theorem plan_disjoint_small :
    ∃ kernel mem' p, load headerLoader smallRam (sizedImage 0x80000 0x1234567) =
      .ok (kernel, mem') ∧ kernel.plan shortWriter smallGuest = .ok p ∧
      p.Placed ⟨ramBase.toNat, ramBase.toNat + smallGuest.ramSize.toNat⟩ := by
  obtain ⟨mem', hload⟩ : ∃ mem', load headerLoader smallRam (sizedImage 0x80000 0x1234567) =
      .ok (⟨0x40080000, 0x1234567⟩, mem') := ⟨_, rfl⟩
  obtain ⟨p, hplan⟩ : ∃ p, LoadedKernel.plan ⟨0x40080000, 0x1234567⟩ shortWriter smallGuest =
      .ok p :=
    ⟨_, rfl⟩
  have hfits : exactTop ⟨0x40080000, 0x1234567⟩ 4 smallGuest.initrdSize < 2 ^ 64 := by decide
  exact ⟨_, mem', p, hload, hplan, (plan_disjoint hload hplan).2.2.mpr hfits⟩

/-- The kernel's size wraps the sum of its end: the devicetree goes to the start of RAM and the
initramfs over the kernel. -/
theorem plan_wraps :
    ∃ kernel mem' p,
      load headerLoader smallRam (sizedImage 0x400000 (0 - 0x400000)) = .ok (kernel, mem') ∧
      kernel.plan shortWriter smallGuest = .ok p ∧ p.layout.dtbAddr = ramBase ∧
      2 ^ 64 ≤ p.layout.kernelAddr.toNat + p.layout.kernelSize.toNat ∧
      (⟨p.layout.initrdAddr.toNat, p.layout.initrdEnd.toNat⟩ : Span).Has
        p.layout.kernelAddr.toNat := by
  obtain ⟨mem', hload⟩ : ∃ mem', load headerLoader smallRam (sizedImage 0x400000 (0 - 0x400000)) =
      .ok (⟨0x40400000, 0 - 0x400000⟩, mem') := ⟨_, rfl⟩
  obtain ⟨p, hplan, hlayout⟩ : ∃ p, LoadedKernel.plan ⟨0x40400000, 0 - 0x400000⟩ shortWriter
      smallGuest =
      .ok p ∧ p.layout = .new 0x10000000 0x40400000 (0 - 0x400000) 4 0x800000 := ⟨_, rfl, rfl⟩
  refine ⟨_, mem', p, hload, hplan, ?_⟩
  rw [hlayout]
  decide

end LoadedKernel

end Aarch64
