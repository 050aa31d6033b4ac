/-
The devicetree of an arm64 guest (`arch::aarch64::fdt`, with the placements of
`arch::aarch64::layout`).

The blob is built by the calls to a writer.  Which calls are made, and how long each value is, does
not depend on where the initramfs goes.

* `fdtBuild_shape` — two layouts that agree on where RAM starts and on the length of the initramfs
  give calls with the same names and sizes.
-/
import HviVmm.ByteCodec

namespace Aarch64

/-! ### The writer -/

/-- The calls to the writer. -/
inductive FdtCall where
  | beginNode (name : String)
  | endNode
  | propertyNull (name : String)
  | propertyU32 (name : String) (val : UInt32)
  | propertyU64 (name : String) (val : UInt64)
  | propertyString (name : String) (val : String)
  | propertyStringList (name : String) (vals : List String)
  | propertyArrayU32 (name : String) (vals : List UInt32)
  | propertyArrayU64 (name : String) (vals : List UInt64)
  | propertyPhandle (val : UInt32)
  | property (name : String) (val : List UInt8)
  deriving DecidableEq

/-- What the length of the blob depends on: the names, and the sizes of the values. -/
inductive FdtShape where
  | beginNode (name : String)
  | endNode
  | property (name : String) (size : ℕ)
  deriving DecidableEq

def FdtCall.shape : FdtCall → FdtShape
  | beginNode name => .beginNode name
  | endNode => .endNode
  | propertyNull name => .property name 0
  | propertyU32 name _ => .property name 4
  | propertyU64 name _ => .property name 8
  | propertyString name val => .property name (val.utf8ByteSize + 1)
  | propertyStringList name vals => .property name (vals.map fun val => val.utf8ByteSize + 1).sum
  | propertyArrayU32 name vals => .property name (4 * vals.length)
  | propertyArrayU64 name vals => .property name (8 * vals.length)
  | propertyPhandle _ => .property "phandle" 4
  | property name val => .property name val.length

/-- A writer: what it makes of the calls, with a length that depends on their shapes only. -/
structure FdtWriter where
  finish : List FdtCall → Except String (List UInt8)
  size : List FdtShape → ℕ
  sized : ∀ calls blob, finish calls = .ok blob → blob.length = size (calls.map FdtCall.shape)

/-! ### The layout -/

def ramBase : UInt64 := 0x40000000
def uartBase : UInt64 := 0x0c000000
def uartSize : UInt64 := 0x1000
def uartSpi : UInt32 := 1
def rtcBase : UInt64 := 0x0c001000
def rtcSize : UInt64 := 0x1000
def virtioSize : UInt64 := 0x200
def virtioBase : UInt64 := 0x0d000000
def virtioSpi : UInt32 := 2
def virtioNetBase : UInt64 := 0x0d000200
def virtioNetSpi : UInt32 := 3
def virtioVsockBase : UInt64 := 0x0d000400
def virtioVsockSpi : UInt32 := 4
def virtioBlkExtraBase : UInt64 := 0x0d000600
def virtioBlkExtraSpi : UInt32 := 5
def maxDisks : ℕ := 4
def virtioFsBase : UInt64 := virtioBlkExtraBase + (maxDisks.toUInt64 - 1) * virtioSize
def virtioFsSpi : UInt32 := virtioBlkExtraSpi + maxDisks.toUInt32 - 1

/-- The window and the interrupt of a virtio-blk device. -/
def virtioBlk (index : ℕ) : Option (UInt64 × UInt32) :=
  if index = 0 then some (virtioBase, virtioSpi)
  else if index < maxDisks then
    some (virtioBlkExtraBase + (index.toUInt64 - 1) * virtioSize,
      virtioBlkExtraSpi + (index.toUInt32 - 1))
  else none

/-- The window and the interrupt of a virtio-fs device, unless one of the sums overflows. -/
def virtioFs (index : ℕ) : Option (UInt64 × UInt32) :=
  if virtioFsBase.toNat + index * virtioSize.toNat < 2 ^ 64 ∧
    virtioFsSpi.toNat + index < 2 ^ 32 then
    some (virtioFsBase + index.toUInt64 * virtioSize, virtioFsSpi + index.toUInt32)
  else none

inductive GicVersion where
  | v3
  | v2
  deriving DecidableEq

structure GicLayout where
  version : GicVersion
  gicdBase : UInt64
  gicdSize : UInt64
  gicrBase : UInt64
  gicrSize : UInt64

def mpidrAffinity (index : UInt32) : UInt32 :=
  let aff0 := index &&& 0xf
  let aff1 := (index >>> 4) &&& 0xff
  let aff2 := (index >>> 12) &&& 0xff
  aff0 ||| (aff1 <<< 8) ||| (aff2 <<< 16)

/-- The virtio devices of this boot. -/
structure VirtioDevices where
  blkCount : ℕ
  net : Bool
  vsock : Bool
  fsCount : ℕ

/-- Rounds up to a power of two, in wrapping arithmetic. -/
def alignUp (v align : UInt64) : UInt64 := (v + align - 1) &&& ~~~(align - 1)

/-- Where the three images go. -/
structure GuestLayout where
  ramBase : UInt64
  ramSize : UInt64
  kernelAddr : UInt64
  kernelSize : UInt64
  dtbAddr : UInt64
  dtbSize : UInt64
  initrdAddr : UInt64
  initrdSize : UInt64

/-- The end of the initramfs as the guest is told. -/
def GuestLayout.initrdEnd (layout : GuestLayout) : UInt64 :=
  if layout.initrdSize = 0 then layout.initrdAddr
  else alignUp (layout.initrdAddr + layout.initrdSize) 0x1000

/-! ### The devicetree -/

def phandleGic : UInt32 := 1
def phandleClk : UInt32 := 2
def irqSpi : UInt32 := 0
def irqPpi : UInt32 := 1
def irqLevelHigh : UInt32 := 4

def hexDigits (n : ℕ) : String := String.ofList (Nat.toDigits 16 n)

/-- A node's name with its address. -/
def unitName (name : String) (addr : ℕ) : String := name ++ "@" ++ hexDigits addr

open FdtCall

/-- A node with its properties and children. -/
def node (name : String) (body : List FdtCall) : List FdtCall :=
  beginNode name :: body ++ [endNode]

/-- The initramfs range in `/chosen`. -/
def initrdProperties (layout : GuestLayout) : List FdtCall :=
  if layout.initrdSize = 0 then []
  else [propertyU64 "linux,initrd-start" layout.initrdAddr,
    propertyU64 "linux,initrd-end" layout.initrdEnd]

def chosenNode (layout : GuestLayout) (bootargs : String) (rngSeed : List UInt8)
    (kaslrSeed : UInt64) : List FdtCall :=
  node "chosen" ([propertyString "bootargs" bootargs,
      propertyString "stdout-path" ("/" ++ unitName "pl011" uartBase.toNat)] ++
    initrdProperties layout ++
    [property "rng-seed" rngSeed, propertyU64 "kaslr-seed" kaslrSeed])

def memoryNode (layout : GuestLayout) : List FdtCall :=
  node (unitName "memory" layout.ramBase.toNat)
    [propertyString "device_type" "memory", propertyArrayU64 "reg" [layout.ramBase, layout.ramSize]]

def psciNode : List FdtCall :=
  node "psci" [propertyStringList "compatible" ["arm,psci-1.0", "arm,psci-0.2"],
    propertyString "method" "hvc"]

def cpuNode (numCpus cpu : UInt32) : List FdtCall :=
  let affinity := mpidrAffinity cpu
  node (unitName "cpu" affinity.toNat)
    ([propertyString "device_type" "cpu", propertyString "compatible" "arm,arm-v8",
      propertyU32 "reg" affinity] ++
      if 1 < numCpus then [propertyString "enable-method" "psci"] else [])

def cpusNode (numCpus : UInt32) : List FdtCall :=
  node "cpus" ([propertyU32 "#address-cells" 1, propertyU32 "#size-cells" 0] ++
    (List.range numCpus.toNat).flatMap fun cpu => cpuNode numCpus cpu.toUInt32)

def timerNode : List FdtCall :=
  node "timer" [propertyString "compatible" "arm,armv8-timer",
    propertyArrayU32 "interrupts" [irqPpi, 13, irqLevelHigh, irqPpi, 14, irqLevelHigh, irqPpi, 11,
      irqLevelHigh, irqPpi, 10, irqLevelHigh],
    propertyNull "always-on"]

def intcNode (gic : GicLayout) : List FdtCall :=
  node (unitName "intc" gic.gicdBase.toNat)
    [propertyString "compatible"
        (match gic.version with
          | .v3 => "arm,gic-v3"
          | .v2 => "arm,cortex-a15-gic"),
      propertyNull "interrupt-controller", propertyU32 "#interrupt-cells" 3,
      propertyU32 "#address-cells" 2, propertyU32 "#size-cells" 2,
      propertyArrayU64 "reg" [gic.gicdBase, gic.gicdSize, gic.gicrBase, gic.gicrSize],
      propertyPhandle phandleGic]

def clockNode : List FdtCall :=
  node "apb-pclk" [propertyString "compatible" "fixed-clock", propertyU32 "#clock-cells" 0,
    propertyU32 "clock-frequency" 24000000, propertyString "clock-output-names" "clk24mhz",
    propertyPhandle phandleClk]

def uartNode : List FdtCall :=
  node (unitName "pl011" uartBase.toNat)
    [propertyStringList "compatible" ["arm,pl011", "arm,primecell"],
      propertyArrayU64 "reg" [uartBase, uartSize],
      propertyArrayU32 "interrupts" [irqSpi, uartSpi, irqLevelHigh],
      propertyArrayU32 "clocks" [phandleClk, phandleClk],
      propertyStringList "clock-names" ["uartclk", "apb_pclk"]]

def rtcNode : List FdtCall :=
  node (unitName "pl031" rtcBase.toNat)
    [propertyStringList "compatible" ["arm,pl031", "arm,primecell"],
      propertyArrayU64 "reg" [rtcBase, rtcSize], propertyArrayU32 "clocks" [phandleClk],
      propertyStringList "clock-names" ["apb_pclk"]]

def virtioNode (place : UInt64 × UInt32) : List FdtCall :=
  node (unitName "virtio_mmio" place.1.toNat)
    [propertyString "compatible" "virtio,mmio", propertyArrayU64 "reg" [place.1, virtioSize],
      propertyArrayU32 "interrupts" [irqSpi, place.2, irqLevelHigh]]

/-- The nodes of the virtio devices, disks first. -/
def virtioNodes (devices : VirtioDevices) : List FdtCall :=
  ((List.range devices.blkCount).filterMap virtioBlk).flatMap virtioNode ++
    (if devices.net then virtioNode (virtioNetBase, virtioNetSpi) else []) ++
    (if devices.vsock then virtioNode (virtioVsockBase, virtioVsockSpi) else []) ++
    ((List.range devices.fsCount).filterMap virtioFs).flatMap virtioNode

/-- The calls `build` makes. -/
def fdtBuild (layout : GuestLayout) (gic : GicLayout) (numCpus : UInt32) (bootargs : String)
    (devices : VirtioDevices) (rngSeed : List UInt8) (kaslrSeed : UInt64) : List FdtCall :=
  node "" ([propertyU32 "#address-cells" 2, propertyU32 "#size-cells" 2,
      propertyString "compatible" "linux,dummy-virt", propertyU32 "interrupt-parent" phandleGic] ++
    chosenNode layout bootargs rngSeed kaslrSeed ++ memoryNode layout ++ psciNode ++
    cpusNode numCpus ++ timerNode ++ intcNode gic ++ clockNode ++ uartNode ++ rtcNode ++
    virtioNodes devices)

theorem map_shape_node (name : String) (body : List FdtCall) :
    (node name body).map shape = FdtShape.beginNode name :: (body.map shape ++ [.endNode]) := by
  simp [node, shape]

/-- **Where the initramfs goes changes no name and no size.** -/
theorem fdtBuild_shape {layout layout' : GuestLayout} (hbase : layout'.ramBase = layout.ramBase)
    (hinitrd : layout'.initrdSize = layout.initrdSize) (gic : GicLayout) (numCpus : UInt32)
    (bootargs : String) (devices : VirtioDevices) (rngSeed : List UInt8) (kaslrSeed : UInt64) :
    (fdtBuild layout' gic numCpus bootargs devices rngSeed kaslrSeed).map FdtCall.shape =
      (fdtBuild layout gic numCpus bootargs devices rngSeed kaslrSeed).map FdtCall.shape := by
  have hproperties : (initrdProperties layout').map FdtCall.shape =
      (initrdProperties layout).map FdtCall.shape := by
    rw [initrdProperties, initrdProperties, hinitrd]
    split
    · rfl
    · simp only [List.map_cons, FdtCall.shape]
  have hchosen : (chosenNode layout' bootargs rngSeed kaslrSeed).map FdtCall.shape =
      (chosenNode layout bootargs rngSeed kaslrSeed).map FdtCall.shape := by
    rw [chosenNode, chosenNode, map_shape_node, map_shape_node]
    simp only [List.map_append, hproperties]
  have hmemory : (memoryNode layout').map FdtCall.shape =
      (memoryNode layout).map FdtCall.shape := by
    rw [memoryNode, memoryNode, map_shape_node, map_shape_node, hbase]
    simp only [List.map_cons, FdtCall.shape, List.length_cons]
  rw [fdtBuild, fdtBuild, map_shape_node, map_shape_node]
  simp only [List.map_append, hchosen, hmemory]

end Aarch64
