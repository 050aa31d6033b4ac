/-
The virtio-mmio register windows (`devices::virtio::mmio` and the write half of
each device's `serve_mmio`).

The four devices served in process decode the same registers and differ in how
many queues they have and in how `QUEUE_SEL` picks one: virtio-blk ignores it,
virtio-net takes its low bit, virtio-vsock its remainder modulo three, and
virtio-fs refuses a selector past its last queue.  `Transport` holds what a
window writes; running a notified queue is the device's own and comes later.

* `Transport.ReadyOk` — every ready queue has its rings in guest RAM;
* `writeReg_readyOk`, `program_readyOk` — a register write keeps it, so any
  sequence of writes does;
* `ready_queue_rings_in_ram` — what a driver can rely on, and what it cannot
  break, once `is_ready` answers true.
-/
import HviVmm.Queue

/-- The registers a driver writes. -/
inductive Reg where
  | deviceFeaturesSel
  | driverFeatures
  | driverFeaturesSel
  | queueSel
  | queueNum
  | queueReady
  | queueNotify
  | interruptAck
  | status
  | queueDescLow
  | queueDescHigh
  | queueDriverLow
  | queueDriverHigh
  | queueDeviceLow
  | queueDeviceHigh
  deriving DecidableEq, Repr

namespace Reg

def offset : Reg → UInt64
  | deviceFeaturesSel => 0x14
  | driverFeatures => 0x20
  | driverFeaturesSel => 0x24
  | queueSel => 0x30
  | queueNum => 0x38
  | queueReady => 0x44
  | queueNotify => 0x50
  | interruptAck => 0x64
  | status => 0x70
  | queueDescLow => 0x80
  | queueDescHigh => 0x84
  | queueDriverLow => 0x90
  | queueDriverHigh => 0x94
  | queueDeviceLow => 0xa0
  | queueDeviceHigh => 0xa4

def all : List Reg :=
  [deviceFeaturesSel, driverFeatures, driverFeaturesSel, queueSel, queueNum, queueReady,
    queueNotify, interruptAck, status, queueDescLow, queueDescHigh, queueDriverLow,
    queueDriverHigh, queueDeviceLow, queueDeviceHigh]

/-- The register at `o`; a write anywhere else is ignored. -/
def decode (o : UInt64) : Option Reg := all.find? fun r => r.offset == o

end Reg

/-- What a register window holds, for a device with `n` queues. -/
structure Transport (n : ℕ) where
  status : UInt32 := 0
  devFeatSel : UInt32 := 0
  queueSel : UInt32 := 0
  queues : Fin n → Queue := fun _ => .initial
  interruptStatus : UInt32 := 0

namespace Transport

variable {n : ℕ}

def setQueue (t : Transport n) (i : Fin n) (q : Queue) : Transport n :=
  { t with queues := Function.update t.queues i q }

/-- Applies `f` to the selected queue, if the selector names one. -/
def onQueue (t : Transport n) (select : UInt32 → Option (Fin n)) (f : Queue → Queue) :
    Transport n :=
  match select t.queueSel with
  | some i => t.setQueue i (f (t.queues i))
  | none => t

/-- Clears what a write of 0 to `STATUS` clears. -/
def reset (t : Transport n) : Transport n :=
  { t with
    queues := fun i => (t.queues i).reset
    interruptStatus := 0
    status := 0
    devFeatSel := 0
    queueSel := 0 }

def writeReg (t : Transport n) (select : UInt32 → Option (Fin n)) (mem : GuestRam) (r : Reg)
    (v : UInt32) : Transport n :=
  match r with
  | .deviceFeaturesSel => { t with devFeatSel := v }
  | .driverFeaturesSel => t
  | .driverFeatures => t
  | .queueSel => { t with queueSel := v }
  | .queueNum => t.onQueue select fun q => q.setNum v
  | .queueReady => t.onQueue select fun q => q.setReady v mem
  | .queueNotify => t
  | .interruptAck => { t with interruptStatus := t.interruptStatus &&& ~~~v }
  | .status => if v = 0 then t.reset else { t with status := v }
  | .queueDescLow => t.onQueue select fun q => q.setDescLo v
  | .queueDescHigh => t.onQueue select fun q => q.setDescHi v
  | .queueDriverLow => t.onQueue select fun q => q.setAvailLo v
  | .queueDriverHigh => t.onQueue select fun q => q.setAvailHi v
  | .queueDeviceLow => t.onQueue select fun q => q.setUsedLo v
  | .queueDeviceHigh => t.onQueue select fun q => q.setUsedHi v

/-- Every queue that is ready has its rings in guest RAM. -/
def ReadyOk (t : Transport n) (mem : GuestRam) : Prop := ∀ i, (t.queues i).ReadyOk mem

variable {t : Transport n} {mem : GuestRam}

theorem readyOk_default (mem : GuestRam) : ReadyOk ({} : Transport n) mem :=
  fun _ => Queue.readyOk_default mem

theorem setQueue_readyOk (h : t.ReadyOk mem) {i : Fin n} {q : Queue} (hq : q.ReadyOk mem) :
    (t.setQueue i q).ReadyOk mem := by
  intro j
  by_cases hj : j = i
  · subst hj
    simpa [setQueue] using hq
  · simpa [setQueue, hj] using h j

theorem onQueue_readyOk (h : t.ReadyOk mem) (select : UInt32 → Option (Fin n))
    {f : Queue → Queue} (hf : ∀ q, (f q).ReadyOk mem) : (t.onQueue select f).ReadyOk mem := by
  unfold onQueue
  split
  · exact setQueue_readyOk h (hf _)
  · exact h

/-- A register write keeps ready queues well placed: a write that moves or
resizes a ring clears the flag, and the flag is set only after the check. -/
theorem writeReg_readyOk (h : t.ReadyOk mem) (select : UInt32 → Option (Fin n)) (r : Reg)
    (v : UInt32) : (t.writeReg select mem r v).ReadyOk mem := by
  have hcleared : ∀ f : Queue → Queue, (∀ q, (f q).ready = false) →
      (t.onQueue select f).ReadyOk mem := fun f hf =>
    onQueue_readyOk h select fun q => Queue.readyOk_of_not_ready (hf q)
  cases r with
  | queueNum => exact onQueue_readyOk h select fun q => q.readyOk_setNum v mem
  | queueReady => exact onQueue_readyOk h select fun q => q.readyOk_setReady v mem
  | status =>
    simp only [writeReg]
    split
    · exact fun i => Queue.readyOk_default mem
    · exact h
  | deviceFeaturesSel | driverFeatures | driverFeaturesSel | queueSel | queueNotify
  | interruptAck => exact h
  | queueDescLow | queueDescHigh | queueDriverLow | queueDriverHigh | queueDeviceLow
  | queueDeviceHigh => exact hcleared _ fun _ => rfl

end Transport

/-- The devices with `Queue` rings. -/
inductive DeviceKind where
  | blk
  | net
  | vsock
  | fs
  deriving DecidableEq, Repr

namespace QueueIndex

/-! Devices have one, two or three queues, and a queue is named by a numeral. -/

scoped instance one : NeZero 1 := ⟨Nat.one_ne_zero⟩
scoped instance two : NeZero 2 := ⟨Nat.succ_ne_zero 1⟩
scoped instance three : NeZero 3 := ⟨Nat.succ_ne_zero 2⟩

end QueueIndex

open scoped QueueIndex

namespace DeviceKind

def numQueues : DeviceKind → ℕ
  | blk => 1
  | net => 2
  | vsock => 3
  | fs => 2

/-- The queue `QUEUE_SEL` names in each device. -/
def select : (k : DeviceKind) → UInt32 → Option (Fin k.numQueues)
  | blk, _ => some (0 : Fin 1)
  | net, sel => some (Fin.ofNat 2 (sel &&& 1).toNat)
  | vsock, sel => some (Fin.ofNat 3 (sel % 3).toNat)
  | fs, sel => if h : sel.toNat < 2 then some (⟨sel.toNat, h⟩ : Fin 2) else none

/-- One register write as the dispatch decodes it. -/
def mmioWrite (k : DeviceKind) (mem : GuestRam) (t : Transport k.numQueues)
    (w : UInt64 × UInt64) : Transport k.numQueues :=
  match Reg.decode w.1 with
  | some r => t.writeReg k.select mem r w.2.toUInt32
  | none => t

/-- A fresh device after a sequence of register writes. -/
def program (k : DeviceKind) (mem : GuestRam) (writes : List (UInt64 × UInt64)) :
    Transport k.numQueues :=
  writes.foldl (k.mmioWrite mem) {}

theorem program_readyOk (k : DeviceKind) (mem : GuestRam) (writes : List (UInt64 × UInt64)) :
    (k.program mem writes).ReadyOk mem := by
  refine List.foldlRecOn (motive := fun t => t.ReadyOk mem) writes (k.mmioWrite mem)
    (Transport.readyOk_default mem) ?_
  intro t ht w _
  unfold mmioWrite
  split
  · exact Transport.writeReg_readyOk ht k.select _ _
  · exact ht

end DeviceKind

/-! ### Ring accesses -/

/-- `[gpa, gpa + len)` lies inside a single region. -/
def GuestRam.InOneRegion (mem : GuestRam) (gpa : UInt64) (len : ℕ) : Prop :=
  ∃ r ∈ mem.regions, r.gpa.toNat ≤ gpa.toNat ∧ gpa.toNat + len ≤ r.gpa.toNat + r.size.toNat

/-- Everything a queue computes about its rings and reads or writes there: each
address is the mathematical sum, and each access is granted. -/
structure Queue.RingAccesses (q : Queue) (mem : GuestRam) : Prop where
  descAddr : ∀ d a, q.descAddr d = some a →
    a.toNat = q.desc.toNat + 16 * d.toNat ∧ (a + 8).toNat = a.toNat + 8 ∧
      (a + 12).toNat = a.toNat + 12 ∧ (a + 14).toNat = a.toNat + 14
  descriptor : ∀ d a, q.descAddr d = some a →
    (mem.readU64 a).isSome = true ∧ (mem.readU32 (a + 8)).isSome = true ∧
      (mem.readU16 (a + 12)).isSome = true ∧ (mem.readU16 (a + 14)).isSome = true
  availSlot : ∀ idx, ∃ a, q.availSlot idx = some a ∧
    a.toNat = q.avail.toNat + 4 + 2 * (idx.toNat % q.size.toNat) ∧ (mem.readU16 a).isSome = true
  availIdx : (q.avail + 2).toNat = q.avail.toNat + 2 ∧ (mem.readU16 (q.avail + 2)).isSome = true
  usedEntry : ∀ idx,
    (q.usedEntry idx).toNat = q.used.toNat + 4 + 8 * (idx.toNat % q.size.toNat) ∧
      (q.usedEntry idx + 4).toNat = q.used.toNat + 8 + 8 * (idx.toNat % q.size.toNat)
  usedIdx : (q.used + 2).toNat = q.used.toNat + 2
  pushUsed : ∀ head len, ∃ mem', q.pushUsedStrict mem head len = some mem' ∧
    q.pushUsed mem head len = mem'

namespace Queue

variable {q : Queue} {mem : GuestRam}

/-- A write that is granted leaves the regions, and so every later grant, as
they were. -/
theorem ReadyOk.pushUsed (h : q.ReadyOk mem) (hr : q.isReady = true) (head : UInt16)
    (len : UInt32) : ∃ mem', q.pushUsedStrict mem head len = some mem' ∧
      q.pushUsed mem head len = mem' := by
  obtain ⟨-, hidx⟩ := h.usedIdx hr
  obtain ⟨usedIdx, hread⟩ := Option.isSome_iff_exists.mp (GuestRam.readU16_isSome hidx)
  obtain ⟨-, -, hentry, hentry4⟩ := h.usedEntry hr usedIdx
  obtain ⟨-, hentry0⟩ := GuestRam.contains_sub (o := 0) (k := 4) hentry (by decide)
  rw [UInt64.add_zero] at hentry0
  obtain ⟨mem₁, hw₁⟩ := Option.isSome_iff_exists.mp
    (GuestRam.writeU32_isSome (v := head.toUInt32) hentry0)
  obtain ⟨-, hreg₁, -⟩ := GuestRam.write_bytes hw₁
  obtain ⟨mem₂, hw₂⟩ := Option.isSome_iff_exists.mp
    (GuestRam.writeU32_isSome (v := len) ((GuestRam.contains_congr hreg₁).trans hentry4))
  obtain ⟨-, hreg₂, -⟩ := GuestRam.write_bytes hw₂
  obtain ⟨mem₃, hw₃⟩ := Option.isSome_iff_exists.mp (GuestRam.writeU16_isSome (v := usedIdx + 1)
    ((GuestRam.contains_congr (hreg₂.trans hreg₁)).trans hidx))
  have hsize : (q.size == 0) = false := by
    simpa using size_ne_zero (isReady_num_pos hr)
  refine ⟨mem₃, ?_, ?_⟩
  · simp [pushUsedStrict, hread, hw₁, hw₂, hw₃]
  · simp [Queue.pushUsed, hsize, hread, hw₁, hw₂, hw₃]

theorem ReadyOk.ringAccesses (h : q.ReadyOk mem) (hr : q.isReady = true) : q.RingAccesses mem where
  descAddr d a ha := by
    obtain ⟨haddr, hin⟩ := h.descAddr hr ha
    have hlt := GuestRam.contains_lt hin
    refine ⟨haddr, ?_, ?_, ?_⟩ <;> simp [UInt64.toNat_add] <;> omega
  descriptor d a ha := by
    obtain ⟨-, hin⟩ := h.descAddr hr ha
    obtain ⟨-, h0⟩ := GuestRam.contains_sub (o := 0) (k := 8) hin (by decide)
    rw [UInt64.add_zero] at h0
    obtain ⟨-, h8⟩ := GuestRam.contains_sub (o := 8) (k := 4) hin (by decide)
    obtain ⟨-, h12⟩ := GuestRam.contains_sub (o := 12) (k := 2) hin (by decide)
    obtain ⟨-, h14⟩ := GuestRam.contains_sub (o := 14) (k := 2) hin (by decide)
    exact ⟨GuestRam.readU64_isSome h0, GuestRam.readU32_isSome h8, GuestRam.readU16_isSome h12,
      GuestRam.readU16_isSome h14⟩
  availSlot idx := by
    obtain ⟨a, ha, haddr, hin⟩ := h.availSlot hr idx
    exact ⟨a, ha, haddr, GuestRam.readU16_isSome hin⟩
  availIdx := by
    obtain ⟨haddr, hin⟩ := h.pending hr
    exact ⟨haddr, GuestRam.readU16_isSome hin⟩
  usedEntry idx := by
    obtain ⟨h0, h4, -, -⟩ := h.usedEntry hr idx
    exact ⟨h0, h4⟩
  usedIdx := (h.usedIdx hr).1
  pushUsed head len := h.pushUsed hr head len

end Queue

/-- **A ready queue is safe to use**: after any sequence of register writes to
any of the devices, a queue that reports ready has a power-of-two size of at most
256 and its three rings each inside one region.  Whatever RAM then holds, every
ring address is computed without wrapping and every ring access is granted. -/
theorem ready_queue_rings_in_ram (k : DeviceKind) (mem : GuestRam)
    (writes : List (UInt64 × UInt64)) (i : Fin k.numQueues)
    (hready : ((k.program mem writes).queues i).isReady = true) :
    (∃ e ≤ 8, ((k.program mem writes).queues i).size.toNat = 2 ^ e) ∧
      mem.InOneRegion ((k.program mem writes).queues i).desc
        (16 * ((k.program mem writes).queues i).size.toNat) ∧
      mem.InOneRegion ((k.program mem writes).queues i).avail
        (6 + 2 * ((k.program mem writes).queues i).size.toNat) ∧
      mem.InOneRegion ((k.program mem writes).queues i).used
        (6 + 8 * ((k.program mem writes).queues i).size.toNat) ∧
      ∀ mem' : GuestRam, mem'.regions = mem.regions →
        ((k.program mem writes).queues i).RingAccesses mem' := by
  have hok := k.program_readyOk mem writes i
  generalize (k.program mem writes).queues i = q at hready hok ⊢
  obtain ⟨hdesc, havail, hused⟩ := hok.rings hready
  rw [← q.size_toNat] at hdesc havail hused
  exact ⟨Queue.isReady_size_pow hready, GuestRam.contains_iff.mp hdesc,
    GuestRam.contains_iff.mp havail, GuestRam.contains_iff.mp hused,
    fun mem' hreg => (hok.congr hreg).ringAccesses hready⟩

/-- One megabyte of RAM at 1 GiB, all zero. -/
def sampleRam : GuestRam where
  regions := [⟨0x40000000, 0x100000⟩]
  bytes := fun _ => 0
  fits := by decide
  sorted := by decide

/-- The writes of a driver that sets up queue 0 with eight entries. -/
def sampleWrites : List (UInt64 × UInt64) :=
  [(0x30, 0), (0x38, 8), (0x80, 0x40000000), (0x84, 0), (0x90, 0x40001000), (0x94, 0),
    (0xa0, 0x40002000), (0xa4, 0), (0x44, 1)]

theorem ready_queue_rings_in_ram_sample :
    ((DeviceKind.blk.program sampleRam sampleWrites).queues (0 : Fin 1)).isReady = true ∧
      sampleRam.InOneRegion ((DeviceKind.blk.program sampleRam sampleWrites).queues
        (0 : Fin 1)).used
        (6 + 8 * ((DeviceKind.blk.program sampleRam sampleWrites).queues (0 : Fin 1)).size.toNat) :=
  have hready : ((DeviceKind.blk.program sampleRam sampleWrites).queues
      (0 : Fin 1)).isReady = true := by decide
  ⟨hready, (ready_queue_rings_in_ram .blk sampleRam sampleWrites (0 : Fin 1) hready).2.2.2.1⟩
