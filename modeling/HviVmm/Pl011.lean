/-
The console UART of the arm64 guest (`devices::legacy::pl011`).

What the guest writes to the data register goes to the terminal through a `ConsoleFilter`, byte by
byte; what the host types waits in a queue of bounded length until the guest reads it.

* `Pl011.console_streams` — over every sequence of accesses and keystrokes the guest reads what was
  typed, in order and once; the terminal gets what one filter makes of all that was written; and the
  line is high exactly while a byte waits and its interrupt is enabled.
-/
import HviVmm.ConsoleLanguage
import HviVmm.Irq

namespace Pl011Reg

def dr : UInt64 := 0x000
def fr : UInt64 := 0x018
def imsc : UInt64 := 0x038
def ris : UInt64 := 0x03c
def mis : UInt64 := 0x040

end Pl011Reg

open ConsoleFilter Pl011Reg

/-- The device, and what it has written to the terminal. -/
structure Pl011 where
  out : List UInt8 := []
  filter : Filter := {}
  rx : List UInt8 := []
  imsc : UInt32 := 0
  irq : Irq := {}

namespace Pl011

def frTxfe : UInt64 := 0x80
def frRxfe : UInt64 := 0x10
def intRx : UInt32 := 0x10
def rxCap : ℕ := 4096

/-- The PrimeCell identification registers. -/
def idRegs : List (UInt64 × UInt8) :=
  [(0xfe0, 0x11), (0xfe4, 0x10), (0xfe8, 0x04), (0xfec, 0x00), (0xff0, 0x0d), (0xff4, 0xf0),
    (0xff8, 0x05), (0xffc, 0xb1)]

def idReg (offset : UInt64) : Option UInt64 := (idRegs.lookup offset).map UInt8.toUInt64

def irqLevel (u : Pl011) : Bool := !u.rx.isEmpty && u.imsc &&& intRx != 0

def syncIrq (u : Pl011) : Pl011 := { u with irq := u.irq.set u.irqLevel }

def rawInt (u : Pl011) : UInt32 := if u.rx.isEmpty then 0 else intRx

def pushRx (u : Pl011) (byte : UInt8) : Pl011 :=
  syncIrq (if u.rx.length < rxCap then { u with rx := u.rx ++ [byte] } else u)

/-- A write.  `ICR` and the other registers have no state. -/
def writeReg (u : Pl011) (offset value : UInt64) : Pl011 :=
  if offset = dr then
    let r := u.filter.filter [value.toUInt8]
    { u with filter := r.1, out := u.out ++ r.2 }
  else if offset = Pl011Reg.imsc then { u with imsc := value.toUInt32 }
  else u

def readReg (u : Pl011) (offset : UInt64) : UInt64 × Pl011 :=
  if offset = dr then ((u.rx.head?.getD 0).toUInt64, { u with rx := u.rx.tail })
  else if offset = fr then (frTxfe ||| if u.rx.isEmpty then frRxfe else 0, u)
  else if offset = Pl011Reg.imsc then (u.imsc.toUInt64, u)
  else if offset = ris then (u.rawInt.toUInt64, u)
  else if offset = mis then ((u.rawInt &&& u.imsc).toUInt64, u)
  else ((idReg offset).getD 0, u)

/-- What happens to the device: a keystroke, or an access of the guest. -/
inductive Op where
  | pushRx (byte : UInt8)
  | read (offset : UInt64)
  | write (offset value : UInt64)
  deriving DecidableEq

/-- `push_rx` and `mmio`, with what a read returns. -/
def Op.exec (u : Pl011) : Op → UInt64 × Pl011
  | pushRx byte => (0, u.pushRx byte)
  | read offset => ((u.readReg offset).1, (u.readReg offset).2.syncIrq)
  | write offset value => (0, (u.writeReg offset value).syncIrq)

/-! ### What was typed, read and written -/

/-- The keystrokes there was room for, the bytes the guest was given, and those it wrote. -/
structure Log where
  typed : List UInt8 := []
  taken : List UInt8 := []
  sent : List UInt8 := []

/-- A read of the data register takes a byte if the flag register says there is one. -/
def Op.note (u : Pl011) (l : Log) : Op → Log
  | pushRx byte => if u.rx.length < rxCap then { l with typed := l.typed ++ [byte] } else l
  | read offset =>
    if offset = dr ∧ (u.readReg fr).1 &&& frRxfe = 0 then
      { l with taken := l.taken ++ [(u.readReg dr).1.toUInt8] }
    else l
  | write offset value => if offset = dr then { l with sent := l.sent ++ [value.toUInt8] } else l

def run : List Op → Pl011 × Log → Pl011 × Log
  | [], s => s
  | op :: ops, s => run ops ((op.exec s.1).2, op.note s.1 s.2)

/-- The device agrees with the log, and its line with the device. -/
structure Inv (u : Pl011) (l : Log) : Prop where
  typed : l.typed = l.taken ++ u.rx
  bounded : u.rx.length ≤ rxCap
  sent : ({} : Filter).filter l.sent = (u.filter, u.out)
  line : u.irq.InStep ∧ u.irq.high = u.irqLevel

variable {u : Pl011} {l : Log}

/-- The line is set last. -/
theorem Inv.put (h : Inv u l) {out rx : List UInt8} {filter : Filter} (imsc : UInt32) {l' : Log}
    (htyped : l'.typed = l'.taken ++ rx) (hbounded : rx.length ≤ rxCap)
    (hsent : ({} : Filter).filter l'.sent = (filter, out)) :
    Inv (syncIrq { u with out, filter, rx, imsc }) l' :=
  ⟨htyped, hbounded, hsent, h.line.1.set _⟩

/-- The flag register says whether a byte waits. -/
theorem readReg_fr : (u.readReg fr).1 &&& frRxfe = 0 ↔ u.rx ≠ [] := by
  have hread : (u.readReg fr).1 = frTxfe ||| if u.rx.isEmpty then frRxfe else 0 := rfl
  rw [hread]
  cases u.rx with
  | nil => exact iff_of_false (by decide) (fun h => h rfl)
  | cons b rx =>
    have hset : (frTxfe ||| 0) &&& frRxfe = 0 := by decide
    exact iff_of_true hset (List.cons_ne_nil b rx)

/-- A read of another register changes nothing. -/
theorem readReg_ne_dr {offset : UInt64} (h : offset ≠ dr) : (u.readReg offset).2 = u := by
  unfold readReg
  rw [if_neg h]
  split_ifs <;> rfl

/-- **One operation.** -/
theorem Inv.step (h : Inv u l) (op : Op) : Inv (op.exec u).2 (op.note u l) := by
  have hsame : ∀ imsc, Inv (syncIrq { u with imsc }) l := fun imsc =>
    h.put imsc h.typed h.bounded h.sent
  cases op with
  | pushRx byte =>
    rw [Op.note, Op.exec, Pl011.pushRx]
    by_cases hroom : u.rx.length < rxCap
    · rw [if_pos hroom, if_pos hroom]
      refine h.put _ ?_ ?_ h.sent
      · rw [h.typed, List.append_assoc]
      · rw [List.length_append]
        exact hroom
    · rw [if_neg hroom, if_neg hroom]
      exact hsame _
  | read offset =>
    rw [Op.note, Op.exec]
    by_cases hdr : offset = dr
    · subst hdr
      have hbounded : u.rx.tail.length ≤ rxCap := by
        rw [List.length_tail]
        exact (Nat.sub_le _ _).trans h.bounded
      refine h.put _ ?_ hbounded (by split <;> exact h.sent)
      show _ = _ ++ u.rx.tail
      cases hrx : u.rx with
      | nil =>
        -- the guest is given a 0 that nobody typed, and could have known
        rw [if_neg fun hc => readReg_fr.mp hc.2 hrx, h.typed, hrx]
        rfl
      | cons b rx =>
        have hb : (u.readReg dr).1.toUInt8 = b := by
          show ((u.rx.head?.getD 0).toUInt64).toUInt8 = b
          rw [hrx]
          exact UInt8.toUInt8_toUInt64 b
        rw [if_pos ⟨rfl, readReg_fr.mpr (hrx ▸ List.cons_ne_nil b rx)⟩, hb, h.typed, hrx]
        exact (List.append_cons ..)
    · rw [if_neg fun hc => hdr hc.1, readReg_ne_dr hdr]
      exact hsame _
  | write offset value =>
    rw [Op.note, Op.exec, writeReg]
    by_cases hdr : offset = dr
    · rw [if_pos hdr, if_pos hdr]
      refine h.put _ h.typed h.bounded ?_
      rw [filter_append, h.sent]
    · rw [if_neg hdr, if_neg hdr]
      split
      · exact hsame _
      · exact hsame _

theorem Inv.run (h : Inv u l) (ops : List Op) :
    Inv (Pl011.run ops (u, l)).1 (Pl011.run ops (u, l)).2 := by
  induction ops generalizing u l with
  | nil => exact h
  | cons op ops ih => exact ih (h.step op)

/-- The device as it is attached, to a line that accepts every call. -/
def attached : Pl011 × Log := ({ irq := ({} : Irq).connect .obedient }, {})

/-- **The console's two streams and its interrupt.**  After any keystrokes and accesses, what was
typed is what the guest has read followed by what waits, of which there is never more than the queue
holds; the terminal has been given what a filter lets through of all the guest wrote; and the line
is high if and only if a byte waits and `IMSC` enables its interrupt. -/
theorem console_streams (ops : List Op) :
    (run ops attached).2.typed = (run ops attached).2.taken ++ (run ops attached).1.rx ∧
      (run ops attached).1.rx.length ≤ rxCap ∧
      (run ops attached).1.out = emitted [(run ops attached).2.sent] ∧
      ((run ops attached).1.irq.lineLevel = true ↔
        (run ops attached).1.rx ≠ [] ∧ (run ops attached).1.imsc &&& intRx ≠ 0) := by
  have hinit : Inv attached.1 attached.2 :=
    ⟨rfl, Nat.zero_le _, rfl, Irq.connect_inStep (fun _ => rfl) rfl rfl, rfl⟩
  have h : Inv (run ops attached).1 (run ops attached).2 := hinit.run ops
  refine ⟨h.typed, h.bounded, ?_, ?_⟩
  · rw [emitted, filterAll_eq, List.flatten_singleton, h.sent]
  · rw [h.line.1.lineLevel_eq, h.line.2]
    simp [irqLevel]

end Pl011
