/-
COM1 of the x86 guest (`devices::legacy::uart16550`), over the register file of a crate.

The registers are the crate's.  The interrupt identification and the pending THR-empty interrupt are
the device's own: it answers reads of IIR itself, and takes note of transmit writes and of writes to
IER as they go by.

`Port16550` is what a 16550 does about interrupts.  What is received is taken as it comes: a byte
from the host or a transmitted byte in loopback may reach the receive buffer or be dropped.

* `Uart16550.refines_standard` — with offsets that fit a register number, every sequence of
  accesses is one of the standard port, with the same answers to reads of IIR, and the line is high
  exactly when a read of IIR would report an interrupt;
* `offset_past_a_byte` — the crate sees the low byte of an offset, the device sees all of it.
-/
import HviVmm.Irq
import HviVmm.LabelledSteps

open LabelledSteps

/-! ### The register file -/

/-- The register file, with what its documentation says of the registers the device looks at. -/
structure SerialFile (σ : Type) where
  new : σ
  read : σ → UInt8 → UInt8 × σ
  write : σ → UInt8 → UInt8 → σ
  enqueueRawBytes : σ → List UInt8 → σ
  interruptEnable : σ → UInt8
  lineStatus : σ → UInt8
  lineControl : σ → UInt8
  inBuffer : σ → List UInt8
  new_interruptEnable : interruptEnable new = 0
  new_lineControl : lineControl new &&& 0x80 = 0
  new_inBuffer : inBuffer new = []
  dataReady : ∀ s, lineStatus s &&& 1 ≠ 0 ↔ inBuffer s ≠ []
  /-- Reads of LCR, and of IER outside the divisor latch, give the registers. -/
  read_lcr : ∀ s, (read s 3).1 = lineControl s
  read_ier : ∀ s, lineControl s &&& 0x80 = 0 → (read s 1).1 = interruptEnable s
  read_interruptEnable : ∀ s off, interruptEnable (read s off).2 = interruptEnable s
  read_lineControl : ∀ s off, lineControl (read s off).2 = lineControl s
  /-- A read of the data register takes a byte, and no other read does. -/
  read_inBuffer : ∀ s off, inBuffer (read s off).2 =
    if off = 0 ∧ lineControl s &&& 0x80 = 0 then (inBuffer s).tail else inBuffer s
  write_interruptEnable : ∀ s off val, interruptEnable (write s off val) =
    if off = 1 ∧ lineControl s &&& 0x80 = 0 then val &&& 0x0f else interruptEnable s
  write_lineControl : ∀ s off val,
    lineControl (write s off val) = if off = 3 then val else lineControl s
  /-- A transmitted byte is received in loopback, while there is room. -/
  write_inBuffer : ∀ s off val, inBuffer (write s off val) = inBuffer s ∨
    (off = 0 ∧ lineControl s &&& 0x80 = 0) ∧ inBuffer (write s off val) = inBuffer s ++ [val]
  enqueue_interruptEnable : ∀ s bytes, interruptEnable (enqueueRawBytes s bytes) = interruptEnable s
  enqueue_lineControl : ∀ s bytes, lineControl (enqueueRawBytes s bytes) = lineControl s
  /-- What there is room for is received. -/
  enqueue_inBuffer : ∀ s bytes, ∃ k, inBuffer (enqueueRawBytes s bytes) = inBuffer s ++ bytes.take k

/-! ### The device -/

def ierReceivedData : UInt8 := 0x01
def ierThrEmpty : UInt8 := 0x02
def lsrDataReady : UInt8 := 0x01
def lcrDlab : UInt8 := 0x80

namespace Com1

/-- Offsets from the base of COM1. -/
def thr : UInt16 := 0
def ier : UInt16 := 1
def iir : UInt16 := 2
def lcr : UInt16 := 3

end Com1

open Com1

def iirReceivedData : UInt8 := 0x04
def iirThrEmpty : UInt8 := 0x02
def iirNone : UInt8 := 0x01
def iirFifoEnabled : UInt8 := 0xc0

structure Uart16550 (σ : Type) where
  inner : σ
  thrEmptyPending : Bool := false
  irq : Irq := {}

/-- The public operations of the device. -/
inductive UartOp where
  | pioRead (off : UInt16)
  | pioWrite (off : UInt16) (val : UInt8)
  | pushRx (b : UInt8)
  deriving DecidableEq

/-- The offset of an access. -/
def UartOp.offset : UartOp → UInt16
  | pioRead off | pioWrite off _ => off
  | pushRx _ => 0

namespace Uart16550

variable {σ : Type} (file : SerialFile σ)

def new : Uart16550 σ := { inner := file.new }

def connectIrq (u : Uart16550 σ) (line : IrqLine) : Uart16550 σ :=
  { u with irq := u.irq.connect line }

def interruptId (u : Uart16550 σ) : UInt8 :=
  if file.interruptEnable u.inner &&& ierReceivedData ≠ 0 ∧
      file.lineStatus u.inner &&& lsrDataReady ≠ 0 then iirReceivedData
  else if file.interruptEnable u.inner &&& ierThrEmpty ≠ 0 ∧ u.thrEmptyPending then iirThrEmpty
  else iirNone

def irqLevel (u : Uart16550 σ) : Bool := u.interruptId file != iirNone

/-- Sets the line to the level of the device. -/
def syncIrq (u : Uart16550 σ) : Uart16550 σ := { u with irq := u.irq.set (u.irqLevel file) }

/-- The read of the register file. -/
def readInner (u : Uart16550 σ) (off : UInt16) : UInt8 × Uart16550 σ :=
  ((file.read u.inner off.toUInt8).1, { u with inner := (file.read u.inner off.toUInt8).2 })

/-- Reports the interrupt, and takes a reported THR-empty for handled. -/
def identify (u : Uart16550 σ) : UInt8 × Uart16550 σ :=
  (u.interruptId file ||| iirFifoEnabled,
    if u.interruptId file = iirThrEmpty then { u with thrEmptyPending := false } else u)

def readPort (u : Uart16550 σ) (off : UInt16) : UInt8 × Uart16550 σ :=
  if off ≠ iir then u.readInner file off
  else (u.readInner file off).2.identify file

/-- Takes note of a write outside the divisor latch, made while IER was `enable`. -/
def noteWrite (u : Uart16550 σ) (off : UInt16) (val enable : UInt8) : Uart16550 σ :=
  if off = thr then { u with thrEmptyPending := true }
  else if off = ier then
    if decide (val &&& ierThrEmpty ≠ 0) ≠ decide (enable &&& ierThrEmpty ≠ 0) then
      { u with thrEmptyPending := decide (val &&& ierThrEmpty ≠ 0) }
    else u
  else u

def writePort (u : Uart16550 σ) (off : UInt16) (val : UInt8) : Uart16550 σ :=
  let control := file.read u.inner lcr.toUInt8
  let enable := file.read control.2 ier.toUInt8
  let written := { u with inner := file.write enable.2 off.toUInt8 val }
  if control.1 &&& lcrDlab ≠ 0 then written else written.noteWrite off val enable.1

def pioRead (u : Uart16550 σ) (off : UInt16) : UInt8 × Uart16550 σ :=
  let (value, u) := u.readPort file off
  (value, u.syncIrq file)

def pioWrite (u : Uart16550 σ) (off : UInt16) (val : UInt8) : Uart16550 σ :=
  (u.writePort file off val).syncIrq file

def pushRx (u : Uart16550 σ) (b : UInt8) : Uart16550 σ :=
  { u with inner := file.enqueueRawBytes u.inner [b] }.syncIrq file

/-- An operation, and what a read gives. -/
def exec (u : Uart16550 σ) : UartOp → Option UInt8 × Uart16550 σ
  | .pioRead off => ((u.pioRead file off).1, (u.pioRead file off).2)
  | .pioWrite off val => (none, u.pioWrite file off val)
  | .pushRx b => (none, u.pushRx file b)

/-- One operation, labelled with what it gives. -/
def Step (l : UartOp × Option UInt8) (u u' : Uart16550 σ) : Prop := u.exec file l.1 = (l.2, u')

/-- A sequence of operations: what each gives, and the device after them. -/
def run (u : Uart16550 σ) : List UartOp → List (UartOp × Option UInt8) × Uart16550 σ
  | [] => ([], u)
  | op :: ops =>
    let (labels, last) := (u.exec file op).2.run ops
    ((op, (u.exec file op).1) :: labels, last)

theorem run_traces (u : Uart16550 σ) (ops : List UartOp) :
    Traces (Step file) (u.run file ops).1 u (u.run file ops).2 := by
  induction ops generalizing u with
  | nil => exact .nil u
  | cons op ops ih => exact .cons rfl (ih _)

theorem run_ops (u : Uart16550 σ) (ops : List UartOp) : (u.run file ops).1.map Prod.fst = ops := by
  induction ops generalizing u with
  | nil => rfl
  | cons op ops ih => exact congrArg (op :: ·) (ih _)

end Uart16550

/-! ### The standard port -/

inductive InterruptId where
  | receivedData
  | thrEmpty
  | none
  deriving DecidableEq

/-- The low bits of IIR. -/
def InterruptId.code : InterruptId → UInt8
  | receivedData => 0x04
  | thrEmpty => 0x02
  | none => 0x01

/-- What the interrupts of a 16550 depend on. -/
structure Port16550 where
  /-- The interrupts that are enabled. -/
  received : Bool := false
  thrEmpty : Bool := false
  dlab : Bool := false
  /-- The bytes that wait to be read. -/
  inBuffer : List UInt8 := []
  /-- The THR-empty interrupt is pending, enabled or not. -/
  pending : Bool := false

namespace Port16550

variable (p : Port16550)

/-- What a read of IIR reports. -/
def reports : InterruptId :=
  if p.received ∧ p.inBuffer ≠ [] then .receivedData
  else if p.thrEmpty ∧ p.pending then .thrEmpty
  else .none

/-- A byte is transmitted. -/
def Transmits (op : UartOp) : Prop := p.dlab = false ∧ ∃ val, op = .pioWrite thr val

/-- The interrupts are enabled and disabled as the value says. -/
def Enables (op : UartOp) (val : UInt8) : Prop := p.dlab = false ∧ op = .pioWrite ier val

/-- The THR-empty interrupt becomes pending: on a transmit, and when it is enabled. -/
def Raises (op : UartOp) : Prop :=
  p.Transmits op ∨ p.thrEmpty = false ∧ ∃ val, p.Enables op val ∧ val &&& 0x02 ≠ 0

/-- It stops being pending: when it is disabled, and when a read of IIR reports it. -/
def Clears (op : UartOp) : Prop :=
  (p.thrEmpty = true ∧ ∃ val, p.Enables op val ∧ val &&& 0x02 = 0) ∨
    op = .pioRead iir ∧ p.reports = .thrEmpty

/-- What may be in the receive buffer after the operation. -/
def receives : UartOp → List (List UInt8)
  | .pioRead off => [if off = 0 ∧ p.dlab = false then p.inBuffer.tail else p.inBuffer]
  | .pioWrite off val =>
    if off = thr ∧ p.dlab = false then [p.inBuffer, p.inBuffer ++ [val]] else [p.inBuffer]
  | .pushRx b => [p.inBuffer, p.inBuffer ++ [b]]

/-- **The interrupt model of a 16550.** -/
structure Step (l : UartOp × Option UInt8) (p p' : Port16550) : Prop where
  identifies : l.1 = .pioRead iir → l.2 = some (p.reports.code ||| 0xc0)
  pending : p'.pending = true ↔ p.Raises l.1 ∨ p.pending = true ∧ ¬ p.Clears l.1
  enables : ∀ val, p.Enables l.1 val →
    p'.received = decide (val &&& 0x01 ≠ 0) ∧ p'.thrEmpty = decide (val &&& 0x02 ≠ 0)
  enabled : (∀ val, ¬ p.Enables l.1 val) → p'.received = p.received ∧ p'.thrEmpty = p.thrEmpty
  controls : ∀ val, l.1 = .pioWrite lcr val → p'.dlab = decide (val &&& 0x80 ≠ 0)
  controlled : (∀ val, l.1 ≠ .pioWrite lcr val) → p'.dlab = p.dlab
  receives : p'.inBuffer ∈ p.receives l.1

end Port16550

namespace Uart16550

variable {σ : Type} {file : SerialFile σ} {u : Uart16550 σ} {off : UInt16} {val : UInt8}
variable {l : UartOp × Option UInt8}

/-! ### The refinement -/

/-- The standard port a device stands for. -/
def port (file : SerialFile σ) (u : Uart16550 σ) : Port16550 where
  received := decide (file.interruptEnable u.inner &&& 0x01 ≠ 0)
  thrEmpty := decide (file.interruptEnable u.inner &&& 0x02 ≠ 0)
  dlab := decide (file.lineControl u.inner &&& 0x80 ≠ 0)
  inBuffer := file.inBuffer u.inner
  pending := u.thrEmptyPending

theorem interruptId_eq (u : Uart16550 σ) : u.interruptId file = (u.port file).reports.code := by
  have hreceived : (file.interruptEnable u.inner &&& ierReceivedData ≠ 0 ∧
      file.lineStatus u.inner &&& lsrDataReady ≠ 0) ↔
      ((u.port file).received = true ∧ (u.port file).inBuffer ≠ []) :=
    and_congr decide_eq_true_iff.symm (file.dataReady u.inner)
  have hthr : (file.interruptEnable u.inner &&& ierThrEmpty ≠ 0 ∧ u.thrEmptyPending = true) ↔
      ((u.port file).thrEmpty = true ∧ (u.port file).pending = true) :=
    and_congr decide_eq_true_iff.symm .rfl
  unfold interruptId Port16550.reports
  simp only [hreceived, hthr]
  split
  · rfl
  · split
    · rfl
    · rfl

theorem irqLevel_iff (u : Uart16550 σ) :
    u.irqLevel file = true ↔ (u.port file).reports ≠ .none := by
  rw [irqLevel, bne_iff_ne, interruptId_eq]
  cases (u.port file).reports <;> decide

/-- An offset below 256 and the register number the file sees. -/
theorem toUInt8_eq_iff {c : UInt16} (hoff : off < 256) (hc : c < 256) :
    off.toUInt8 = c.toUInt8 ↔ off = c := by
  rw [UInt16.lt_iff_toNat_lt] at hoff hc
  rw [← UInt8.toNat_inj, ← UInt16.toNat_inj, UInt16.toNat_toUInt8, UInt16.toNat_toUInt8]
  change off.toNat < 256 at hoff
  change c.toNat < 256 at hc
  omega

theorem dlab_eq_false_iff (u : Uart16550 σ) :
    (u.port file).dlab = false ↔ file.lineControl u.inner &&& 0x80 = 0 := by
  simp [port]

/-- A read of the register file takes at most a received byte. -/
theorem readInner_port (u : Uart16550 σ) (off : UInt16) :
    (u.readInner file off).2.port file =
      { u.port file with inBuffer := file.inBuffer (file.read u.inner off.toUInt8).2 } := by
  simp only [port, readInner, file.read_interruptEnable, file.read_lineControl]

theorem readInner_iir (u : Uart16550 σ) : (u.readInner file iir).2.port file = u.port file := by
  rw [readInner_port, file.read_inBuffer]
  rfl

theorem identify_port (file : SerialFile σ) (u : Uart16550 σ) :
    (u.identify file).2.port file =
      { u.port file with
        pending := (u.port file).pending && (u.port file).reports ≠ InterruptId.thrEmpty } := by
  unfold identify
  rw [interruptId_eq]
  cases hreports : (u.port file).reports with
  | receivedData => simp [InterruptId.code, iirThrEmpty]
  | none => simp [InterruptId.code, iirThrEmpty]
  | thrEmpty => simp [InterruptId.code, iirThrEmpty, port]

theorem readPort_step (u : Uart16550 σ) (hoff : off < 256) :
    Port16550.Step (.pioRead off, some (u.readPort file off).1) (u.port file)
      ((u.readPort file off).2.port file) := by
  have hraises : ¬ (u.port file).Raises (.pioRead off) := by
    rintro (⟨-, val, hop⟩ | ⟨-, val, ⟨-, hop⟩, -⟩)
    · cases hop
    · cases hop
  have henables : ∀ val, ¬ (u.port file).Enables (.pioRead off) val := by
    rintro val ⟨-, hop⟩
    cases hop
  by_cases hiir : off = iir
  · subst hiir
    rw [readPort, if_neg (not_not.mpr rfl)]
    have hport := identify_port file (u.readInner file iir).2
    rw [readInner_iir] at hport
    rw [hport]
    refine ⟨fun _ => ?_, ?_, fun val h => absurd h (henables val), fun _ => ⟨rfl, rfl⟩,
      fun val h => (by cases h), fun _ => rfl, .head _⟩
    · show some (((u.readInner file iir).2.interruptId file) ||| _) = _
      rw [interruptId_eq, readInner_iir]
      rfl
    · have hclears : (u.port file).Clears (.pioRead iir) ↔
          (u.port file).reports = InterruptId.thrEmpty := by
        refine ⟨fun h => ?_, fun h => .inr ⟨rfl, h⟩⟩
        rcases h with ⟨-, val, h, -⟩ | ⟨-, h⟩
        · exact absurd h (henables val)
        · exact h
      simp [hraises, hclears]
  · rw [readPort, if_pos hiir, readInner_port]
    have hnotIir : UartOp.pioRead off ≠ .pioRead iir := fun h => hiir (UartOp.pioRead.inj h)
    refine ⟨fun h => absurd h hnotIir, ?_, fun val h => absurd h (henables val),
      fun _ => ⟨rfl, rfl⟩, fun val h => (by cases h), fun _ => rfl, ?_⟩
    · have hclears : ¬ (u.port file).Clears (.pioRead off) := by
        rintro (⟨-, val, h, -⟩ | ⟨h, -⟩)
        · exact henables val h
        · exact hnotIir h
      simp [hraises, hclears]
    · show file.inBuffer _ ∈ [_]
      have hzero : off.toUInt8 = 0 ↔ off = 0 := toUInt8_eq_iff hoff (c := 0) (by decide)
      simp only [List.mem_singleton, file.read_inBuffer, dlab_eq_false_iff, hzero]
      rfl

/-- The registers after a write, as the standard port sees them. -/
theorem writePort_registers (file : SerialFile σ) (u : Uart16550 σ)
    (hoff : off < 256) (val : UInt8) : file.interruptEnable (u.writePort file off val).inner =
      (if off = ier ∧ (u.port file).dlab = false then val &&& 0x0f
        else file.interruptEnable u.inner) ∧
    file.lineControl (u.writePort file off val).inner =
      (if off = lcr then val else file.lineControl u.inner) ∧
    file.inBuffer (u.writePort file off val).inner ∈ (u.port file).receives
      (.pioWrite off val) := by
  have hinner : (u.writePort file off val).inner =
      file.write (file.read (file.read u.inner lcr.toUInt8).2 ier.toUInt8).2 off.toUInt8 val := by
    simp only [writePort, noteWrite]
    split_ifs <;> rfl
  have hier : off.toUInt8 = 1 ↔ off = ier := toUInt8_eq_iff hoff (c := ier) (by decide)
  have hlcr : off.toUInt8 = 3 ↔ off = lcr := toUInt8_eq_iff hoff (c := lcr) (by decide)
  have hthr : off.toUInt8 = 0 ↔ off = thr := toUInt8_eq_iff hoff (c := thr) (by decide)
  -- the two reads before the write leave the registers as they are
  generalize hbefore : (file.read (file.read u.inner lcr.toUInt8).2 ier.toUInt8).2 =
    before at hinner
  have henable : file.interruptEnable before = file.interruptEnable u.inner := by
    rw [← hbefore, file.read_interruptEnable, file.read_interruptEnable]
  have hcontrol : file.lineControl before = file.lineControl u.inner := by
    rw [← hbefore, file.read_lineControl, file.read_lineControl]
  have hbuffer : file.inBuffer before = (u.port file).inBuffer := by
    rw [← hbefore, file.read_inBuffer, if_neg (fun h => absurd h.1 (by decide)),
      file.read_inBuffer, if_neg (fun h => absurd h.1 (by decide))]
    rfl
  rw [hinner]
  refine ⟨?_, ?_, ?_⟩
  · simp only [file.write_interruptEnable, henable, hcontrol, hier, dlab_eq_false_iff]
  · simp only [file.write_lineControl, hcontrol, hlcr]
  · show _ ∈ ite _ _ _
    rcases file.write_inBuffer before off.toUInt8 val with hsame | ⟨⟨hoff', hdlab⟩, hloop⟩
    · rw [hsame, hbuffer]
      split
      · exact .head _
      · exact .head _
    · rw [hcontrol] at hdlab
      rw [if_pos ⟨hthr.mp hoff', u.dlab_eq_false_iff.mpr hdlab⟩, hloop, hbuffer]
      exact .tail _ (.head _)

theorem noteWrite_ier (u : Uart16550 σ) (val enable : UInt8) :
    (u.noteWrite ier val enable).thrEmptyPending =
      if decide (val &&& 0x02 ≠ 0) = decide (enable &&& 0x02 ≠ 0) then u.thrEmptyPending
      else decide (val &&& 0x02 ≠ 0) := by
  rw [noteWrite, if_neg (by decide), if_pos rfl]
  split
  · next h => exact (if_neg h).symm
  · next h => exact (if_pos (not_not.mp h)).symm

/-- The device takes note of a write outside the divisor latch, with IER as it was. -/
theorem writePort_pending_eq (u : Uart16550 σ) (off : UInt16) (val : UInt8) :
    (u.writePort file off val).thrEmptyPending =
      if (u.port file).dlab = false then
        (u.noteWrite off val (file.interruptEnable u.inner)).thrEmptyPending
      else u.thrEmptyPending := by
  have hcontrol : (file.read u.inner lcr.toUInt8).1 = file.lineControl u.inner :=
    file.read_lcr u.inner
  have hnote : ∀ inner enable,
      (({ u with inner } : Uart16550 σ).noteWrite off val enable).thrEmptyPending =
      (u.noteWrite off val enable).thrEmptyPending := by
    intro inner enable
    unfold noteWrite
    split_ifs <;> rfl
  simp only [writePort, hcontrol]
  by_cases hdlab : (u.port file).dlab = false
  · have hlatch : file.lineControl u.inner &&& lcrDlab = 0 := u.dlab_eq_false_iff.mp hdlab
    have henable : (file.read (file.read u.inner lcr.toUInt8).2 ier.toUInt8).1 =
        file.interruptEnable u.inner := by
      have hread := file.read_ier (file.read u.inner lcr.toUInt8).2
        ((congrArg (· &&& (0x80 : UInt8)) (file.read_lineControl ..)).trans hlatch)
      exact hread.trans (file.read_interruptEnable ..)
    rw [if_neg (not_not.mpr hlatch), if_pos hdlab, hnote, henable]
  · have hlatch : file.lineControl u.inner &&& lcrDlab ≠ 0 := fun h =>
      hdlab (u.dlab_eq_false_iff.mpr h)
    rw [if_pos hlatch, if_neg hdlab]

theorem writePort_pending (u : Uart16550 σ) (off : UInt16) (val : UInt8) :
    (u.writePort file off val).thrEmptyPending = true ↔
      (u.port file).Raises (.pioWrite off val) ∨
        u.thrEmptyPending = true ∧ ¬ (u.port file).Clears (.pioWrite off val) := by
  have htransmits : (u.port file).Transmits (.pioWrite off val) ↔
      (u.port file).dlab = false ∧ off = thr := by
    refine and_congr .rfl ⟨fun h => ?_, fun h => ⟨val, by rw [h]⟩⟩
    obtain ⟨val', hop⟩ := h
    exact (UartOp.pioWrite.inj hop).1
  have henables : ∀ val', (u.port file).Enables (.pioWrite off val) val' ↔
      (u.port file).dlab = false ∧ off = ier ∧ val = val' := fun val' =>
    and_congr .rfl ⟨UartOp.pioWrite.inj, fun h => by rw [h.1, h.2]⟩
  rw [writePort_pending_eq]
  unfold Port16550.Raises Port16550.Clears
  simp only [htransmits, henables]
  by_cases hdlab : (u.port file).dlab = false
  · by_cases hthr : off = thr
    · simp [hdlab, hthr, noteWrite]
    · by_cases hier : off = ier
      · -- the enable bit before the write and after it
        rw [if_pos hdlab, hier, noteWrite_ier]
        change (if decide (val &&& 0x02 ≠ 0) = (u.port file).thrEmpty then _ else _) = true ↔ _
        by_cases hval : val &&& 0x02 = 0 <;> cases (u.port file).thrEmpty <;>
          simp [hdlab, hval, show ier ≠ thr by decide]
      · simp [hdlab, hthr, hier, noteWrite]
  · simp [hdlab]

theorem masked_bits (val : UInt8) :
    val &&& 0x0f &&& 0x01 = val &&& 0x01 ∧ val &&& 0x0f &&& 0x02 = val &&& 0x02 := by
  rw [UInt8.and_assoc, UInt8.and_assoc]
  exact ⟨rfl, rfl⟩

theorem writePort_step (u : Uart16550 σ) (hoff : off < 256) (val : UInt8) :
    Port16550.Step (.pioWrite off val, none) (u.port file)
      ((u.writePort file off val).port file) := by
  obtain ⟨henable, hcontrol, hreceives⟩ := writePort_registers file u hoff val
  refine ⟨fun h => (by cases h), u.writePort_pending off val, fun val' h => ?_, fun h => ?_,
    fun val' h => ?_, fun h => ?_, hreceives⟩
  · obtain ⟨hdlab, hop⟩ := h
    obtain ⟨rfl, rfl⟩ := UartOp.pioWrite.inj hop
    rw [if_pos ⟨rfl, hdlab⟩] at henable
    simp only [port, henable, masked_bits, and_self]
  · rw [if_neg (fun hier => h val ⟨hier.2, by rw [hier.1]⟩)] at henable
    simp only [port, henable, and_self]
  · obtain ⟨rfl, rfl⟩ := UartOp.pioWrite.inj h
    rw [if_pos rfl] at hcontrol
    simp only [port, hcontrol]
  · rw [if_neg (fun hlcr => h val (by rw [hlcr]))] at hcontrol
    simp only [port, hcontrol]

theorem pushRx_step (u : Uart16550 σ) (b : UInt8) :
    Port16550.Step (.pushRx b, none) (u.port file) ((u.pushRx file b).port file) := by
  have hport : (u.pushRx file b).port file =
      { u.port file with inBuffer := file.inBuffer (file.enqueueRawBytes u.inner [b]) } := by
    simp only [port, pushRx, syncIrq, file.enqueue_interruptEnable, file.enqueue_lineControl]
  have henables : ∀ val, ¬ (u.port file).Enables (.pushRx b) val := by
    rintro val ⟨-, hop⟩
    cases hop
  rw [hport]
  refine ⟨fun h => (by cases h), ?_, fun val h => absurd h (henables val), fun _ => ⟨rfl, rfl⟩,
    fun val h => (by cases h), fun _ => rfl, ?_⟩
  · have hraises : ¬ (u.port file).Raises (.pushRx b) := by
      rintro (⟨-, val, hop⟩ | ⟨-, val, h, -⟩)
      · cases hop
      · exact henables val h
    have hclears : ¬ (u.port file).Clears (.pushRx b) := by
      rintro (⟨-, val, h, -⟩ | ⟨hop, -⟩)
      · exact henables val h
      · cases hop
    simp [hraises, hclears]
  · obtain ⟨k, hk⟩ := file.enqueue_inBuffer u.inner [b]
    show file.inBuffer _ ∈ [_, _]
    rw [hk]
    cases k with
    | zero =>
      rw [List.take_zero, List.append_nil]
      exact .head _
    | succ k =>
      rw [List.take_succ_cons, List.take_nil]
      exact .tail _ (.head _)

/-- **One operation is one of the standard port.** -/
theorem Step.refine {u u' : Uart16550 σ} (hoff : l.1.offset < 256) (h : Step file l u u') :
    Port16550.Step l (u.port file) (u'.port file) := by
  obtain ⟨op, reply⟩ := l
  unfold Step at h
  cases op with
  | pioRead off =>
    obtain ⟨rfl, rfl⟩ := Prod.mk.inj h
    exact u.readPort_step hoff
  | pioWrite off val =>
    obtain ⟨rfl, rfl⟩ := Prod.mk.inj h
    exact u.writePort_step hoff val
  | pushRx b =>
    obtain ⟨rfl, rfl⟩ := Prod.mk.inj h
    exact u.pushRx_step b

/-! ### The line -/

/-- The line is in step with the device and at its level. -/
def Lined (file : SerialFile σ) (u : Uart16550 σ) : Prop :=
  u.irq.InStep ∧ u.irq.high = u.irqLevel file

theorem syncIrq_lined (h : u.irq.InStep) : (u.syncIrq file).Lined file :=
  (h.set (u.irqLevel file)).imp id id

/-- No access but the last step of an operation touches the line. -/
theorem readPort_irq (u : Uart16550 σ) (off : UInt16) : (u.readPort file off).2.irq = u.irq := by
  unfold readPort readInner identify
  split_ifs <;> rfl

theorem writePort_irq (u : Uart16550 σ) (off : UInt16) (val : UInt8) :
    (u.writePort file off val).irq = u.irq := by
  simp only [writePort, noteWrite]
  split_ifs <;> rfl

/-- **Every operation leaves the line at the level of the device.** -/
theorem Step.lined {u u' : Uart16550 σ} (h : Step file l u u') (hu : u.Lined file) :
    u'.Lined file := by
  obtain ⟨op, reply⟩ := l
  unfold Step at h
  cases op with
  | pioRead off =>
    obtain ⟨-, rfl⟩ := Prod.mk.inj h
    exact syncIrq_lined ((u.readPort_irq off).symm ▸ hu.1)
  | pioWrite off val =>
    obtain ⟨-, rfl⟩ := Prod.mk.inj h
    exact syncIrq_lined ((u.writePort_irq off val).symm ▸ hu.1)
  | pushRx b =>
    obtain ⟨-, rfl⟩ := Prod.mk.inj h
    exact syncIrq_lined hu.1

theorem Lined.lineLevel_iff (h : u.Lined file) :
    u.irq.lineLevel = true ↔ (u.port file).reports ≠ .none := by
  rw [h.1.lineLevel_eq, h.2, irqLevel_iff]

/-- A transmit with THR-empty enabled leaves an interrupt to report. -/
theorem transmit_reports {p p' : Port16550} (h : Port16550.Step l p p') (hl : p.Transmits l.1)
    (hthr : p.thrEmpty = true) : p'.reports ≠ .none := by
  have hpending : p'.pending = true := h.pending.mpr (.inl (.inl hl))
  have henabled : p'.thrEmpty = true := by
    refine (h.enabled fun val henables => ?_).2.trans hthr
    obtain ⟨-, val', hop⟩ := hl
    cases henables.2.symm.trans hop
  unfold Port16550.reports
  split
  · decide
  · rw [if_pos ⟨henabled, hpending⟩]
    decide

/-- **The device does as the standard port does.**  With offsets that fit a register number, every
sequence of accesses of a new device is one of the standard port, with the same answers to reads of
IIR.  The line it is connected to, one that accepts every call, is high exactly when a read of IIR
would report an interrupt.  So a transmit with THR-empty enabled leaves the line high, and raises it
when there was nothing to report before. -/
theorem refines_standard (file : SerialFile σ) (ops : List UartOp)
    (hops : ∀ op ∈ ops, op.offset < 256) :
    let u := ((new file).connectIrq .obedient).run file ops
    (u.1.map Prod.fst = ops ∧ Traces Port16550.Step u.1 {} (u.2.port file)) ∧
      (u.2.irqLevel file = true ↔ (u.2.port file).reports ≠ .none) ∧
      (u.2.irq.lineLevel = true ↔ (u.2.port file).reports ≠ .none) ∧
      ∀ val, (u.2.port file).dlab = false → (u.2.port file).thrEmpty = true →
        (u.2.pioWrite file thr val).irq.lineLevel = true ∧
          ((u.2.port file).reports = .none →
            (u.2.pioWrite file thr val).irq.lineCalls = u.2.irq.lineCalls ++ [true]) := by
  intro u
  have htraces : Traces (Step file) u.1 ((new file).connectIrq .obedient) u.2 := run_traces ..
  have hnew : ((new file).connectIrq .obedient).port file = {} := by
    simp [port, new, connectIrq, file.new_interruptEnable, file.new_lineControl, file.new_inBuffer]
  have hmap : u.1.map Prod.fst = ops := run_ops ..
  have hlined : u.2.Lined file := by
    refine htraces.inv (fun h hs => h.lined hs) ⟨Irq.connect_inStep (fun _ => rfl) rfl rfl, ?_⟩
    have hlow : ¬ ((new file).connectIrq .obedient).irqLevel file = true := by
      rw [irqLevel_iff, hnew]
      decide
    exact (Bool.not_eq_true _ ▸ hlow).symm
  refine ⟨⟨hmap, ?_⟩, u.2.irqLevel_iff, hlined.lineLevel_iff, fun val hdlab hthr => ?_⟩
  · rw [← hnew]
    refine htraces.refine (A := fun l => l.1.offset < 256) (fun hl h => h.refine hl) fun l hl => ?_
    exact hops l.1 (hmap ▸ List.mem_map_of_mem hl)
  · have hstep : Step file (.pioWrite thr val, none) u.2 (u.2.pioWrite file thr val) := rfl
    have hhigh : ((u.2.pioWrite file thr val).port file).reports ≠ .none :=
      transmit_reports (Step.refine (l := (.pioWrite thr val, none)) (show thr < 256 by decide)
        hstep)
        ⟨hdlab, val, rfl⟩ hthr
    have hlevel : (u.2.writePort file thr val).irqLevel file = true := by
      rw [irqLevel_iff]
      exact hhigh
    refine ⟨(hstep.lined hlined).lineLevel_iff.mpr hhigh, fun hnone => ?_⟩
    have hlow : u.2.irq.high = false := by
      rw [hlined.2, ← Bool.not_eq_true, irqLevel_iff, hnone]
      exact fun h => h rfl
    show ((u.2.writePort file thr val).irq.set _).lineCalls = _
    rw [writePort_irq, hlined.1.lineCalls_set, hlevel, if_neg (by rw [hlow]; decide)]

end Uart16550

/-! ### A register file -/

/-- The registers of a file that does as documented. -/
structure SerialRegisters where
  interruptEnable : UInt8 := 0
  lineControl : UInt8 := 0x03
  modemControl : UInt8 := 0x08
  inBuffer : List UInt8 := []

namespace SerialRegisters

def lineStatus (r : SerialRegisters) : UInt8 := if r.inBuffer = [] then 0x60 else 0x61

/-- The modem is there; in loopback its lines are those of the modem control. -/
def modemStatus (r : SerialRegisters) : UInt8 :=
  let m := r.modemControl
  if m &&& 0x10 = 0 then 0xb0
  else (m &&& 1) <<< 5 ||| (m &&& 2) <<< 3 ||| (m &&& 4) <<< 4 ||| (m &&& 8) <<< 4

def read (r : SerialRegisters) (off : UInt8) : UInt8 × SerialRegisters :=
  if off = 0 ∧ r.lineControl &&& 0x80 = 0 then
    (r.inBuffer.headD 0, { r with inBuffer := r.inBuffer.tail })
  else if off = 1 ∧ r.lineControl &&& 0x80 = 0 then (r.interruptEnable, r)
  else if off = 3 then (r.lineControl, r)
  else if off = 4 then (r.modemControl, r)
  else if off = 5 then (r.lineStatus, r)
  else if off = 6 then (r.modemStatus, r)
  else (0, r)

def write (r : SerialRegisters) (off val : UInt8) : SerialRegisters :=
  if off = 0 ∧ r.lineControl &&& 0x80 = 0 then
    -- only in loopback is a byte received
    if r.modemControl &&& 0x10 ≠ 0 ∧ r.inBuffer.length < 64 then
      { r with inBuffer := r.inBuffer ++ [val] }
    else r
  else if off = 1 ∧ r.lineControl &&& 0x80 = 0 then { r with interruptEnable := val &&& 0x0f }
  else if off = 3 then { r with lineControl := val }
  else if off = 4 then { r with modemControl := val }
  else r

def enqueueRawBytes (r : SerialRegisters) (bytes : List UInt8) : SerialRegisters :=
  if r.modemControl &&& 0x10 ≠ 0 then r
  else { r with inBuffer := r.inBuffer ++ bytes.take (64 - r.inBuffer.length) }

/-- A new register file, and the laws it keeps. -/
def file : SerialFile SerialRegisters where
  new := {}
  read := read
  write := write
  enqueueRawBytes := enqueueRawBytes
  interruptEnable := interruptEnable
  lineStatus := lineStatus
  lineControl := lineControl
  inBuffer := inBuffer
  new_interruptEnable := rfl
  new_lineControl := rfl
  new_inBuffer := rfl
  dataReady r := by
    unfold lineStatus
    split
    · next h => exact iff_of_false (by decide) (not_not.mpr h)
    · next h => exact iff_of_true (by decide) h
  read_lcr r := by simp [read]
  read_ier r h := by simp [read, h]
  read_interruptEnable r off := by
    unfold read
    split_ifs <;> rfl
  read_lineControl r off := by
    unfold read
    split_ifs <;> rfl
  read_inBuffer r off := by
    unfold read
    split_ifs <;> rfl
  write_interruptEnable r off val := by
    unfold write
    by_cases h0 : off = 0
    · subst h0
      simp only [true_and, show (0 : UInt8) ≠ 1 by decide, false_and, if_false,
        show (0 : UInt8) ≠ 3 by decide, show (0 : UInt8) ≠ 4 by decide]
      split_ifs <;> rfl
    · simp only [h0, false_and, if_false]
      split_ifs <;> rfl
  write_lineControl r off val := by
    unfold write
    by_cases h3 : off = 3
    · subst h3
      rfl
    · simp only [h3, if_false]
      split_ifs <;> rfl
  write_inBuffer r off val := by
    unfold write
    split_ifs with h0
    · exact .inr ⟨h0, rfl⟩
    all_goals exact .inl rfl
  enqueue_interruptEnable r bytes := by
    unfold enqueueRawBytes
    split_ifs <;> rfl
  enqueue_lineControl r bytes := by
    unfold enqueueRawBytes
    split_ifs <;> rfl
  enqueue_inBuffer r bytes := by
    unfold enqueueRawBytes
    split_ifs
    · exact ⟨0, (List.append_nil _).symm⟩
    · exact ⟨_, rfl⟩

end SerialRegisters

namespace Uart16550

/-- The guest enables THR-empty, is told of it, sets a baud rate and transmits. -/
def transmitOnce : List UartOp :=
  [.pioWrite ier 2, .pioRead iir, .pioWrite lcr 0x83, .pioWrite thr 1, .pioWrite ier 2,
    .pioWrite lcr 0x03, .pioRead iir, .pioWrite thr 65]

theorem refines_standard_transmit :
    (((new SerialRegisters.file).connectIrq .obedient).run SerialRegisters.file
      transmitOnce).2.irq.lineLevel
      = true :=
  (refines_standard SerialRegisters.file transmitOnce (by decide)).2.2.1.mpr (by decide)

/-- The low byte of the offset names IER, so the file enables THR-empty; the device sees another
offset and does not take the interrupt for pending. -/
theorem offset_past_a_byte :
    let u := (((new SerialRegisters.file).connectIrq .obedient).run SerialRegisters.file
      [.pioWrite 0x101 2]).2
    (new SerialRegisters.file).port SerialRegisters.file = {} ∧
      (u.port SerialRegisters.file).thrEmpty = true ∧ (u.port SerialRegisters.file).pending =
        false ∧
      (u.pioRead SerialRegisters.file iir).1 = 0xc1 ∧ u.irq.lineLevel = false := by
  refine ⟨rfl, ?_⟩
  decide

end Uart16550
