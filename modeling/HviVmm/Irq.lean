/-
The interrupt line a device drives (`devices::irq`).

A device remembers the level its line was last set to, and sets the line only to the other level.
A line may refuse to be set; the device then does not take the level for set.

* `Irq.InStep.set` — on a line that accepts every call, the line follows the levels the device
  asks for, and each call changes its level.
-/
import Mathlib.Data.List.Chain

/-- A line as the backend wires it: its level, what it was set to so far, and which of the calls it
accepts. -/
structure IrqLine where
  accepts : ℕ → Bool
  level : Bool := false
  calls : List Bool := []

namespace IrqLine

/-- `set_level`, and whether it succeeds. -/
def setLevel (line : IrqLine) (level : Bool) : Bool × IrqLine :=
  let accepted := line.accepts line.calls.length
  (accepted,
    { line with
      level := if accepted then level else line.level
      calls := line.calls ++ [level] })

/-- A line that starts low and accepts every call. -/
def obedient : IrqLine := { accepts := fun _ => true }

/-- No call changes the line to the level it has, and the last one set its level. -/
def Alternates (line : IrqLine) : Prop :=
  (false :: line.calls).IsChain (· ≠ ·) ∧ (false :: line.calls).getLast? = some line.level

end IrqLine

/-- A device's interrupt. -/
structure Irq where
  line : Option IrqLine := none
  high : Bool := false

namespace Irq

variable {irq : Irq} {line : IrqLine} {level : Bool}

def connect (irq : Irq) (line : IrqLine) : Irq := { irq with line := some line }

def set (irq : Irq) (level : Bool) : Irq :=
  if level = irq.high then irq
  else
    match irq.line with
    | none => irq
    | some line =>
      let (accepted, line) := line.setLevel level
      { line := some line, high := if accepted then level else irq.high }

/-- The device is connected to a line that accepts every call, is at the level the device takes it
to be at, and was called for nothing but changes. -/
def InStep (irq : Irq) : Prop :=
  ∃ line, irq.line = some line ∧ (∀ k, line.accepts k = true) ∧ line.level = irq.high ∧
    line.Alternates

/-- The level of the line, low without one. -/
def lineLevel (irq : Irq) : Bool := (irq.line.map IrqLine.level).getD false

/-- What the line was set to so far. -/
def lineCalls (irq : Irq) : List Bool := (irq.line.map IrqLine.calls).getD []

theorem connect_inStep (haccepts : ∀ k, line.accepts k = true) (hlevel : line.level = false)
    (hcalls : line.calls = []) : (({} : Irq).connect line).InStep := by
  refine ⟨line, rfl, haccepts, hlevel, ?_, ?_⟩
  · rw [hcalls]
    exact .singleton _
  · rw [hcalls, hlevel]
    rfl

theorem InStep.lineLevel_eq (h : irq.InStep) : irq.lineLevel = irq.high := by
  obtain ⟨line, hline, -, hlevel, -⟩ := h
  rw [lineLevel, hline]
  exact hlevel

/-- The line at the other level is set, and the call is noted. -/
theorem set_of_ne (hline : irq.line = some line) (haccepts : ∀ k, line.accepts k = true)
    (hlevel : level ≠ irq.high) :
    irq.set level =
      { line := some { line with level, calls := line.calls ++ [level] }, high := level } := by
  simp [set, hlevel, hline, IrqLine.setLevel, haccepts]

/-- **The line follows the device.** -/
theorem InStep.set (h : irq.InStep) (level : Bool) :
    (irq.set level).InStep ∧ (irq.set level).high = level := by
  by_cases hsame : level = irq.high
  · rw [Irq.set, if_pos hsame]
    exact ⟨h, hsame.symm⟩
  · obtain ⟨line, hline, haccepts, hlevel, hchain, hlast⟩ := h
    rw [set_of_ne hline haccepts hsame]
    refine ⟨⟨_, rfl, haccepts, rfl, ?_, ?_⟩, rfl⟩
    · -- the call differs from the one before it, which left the line at the other level
      show (false :: (line.calls ++ [level])).IsChain (· ≠ ·)
      rw [← List.cons_append]
      refine List.IsChain.append hchain (.singleton _) fun last hl next hn => ?_
      obtain rfl : line.level = last := Option.some.inj (hlast.symm.trans hl)
      obtain rfl : level = next := Option.some.inj hn
      rw [hlevel]
      exact Ne.symm hsame
    · show (false :: (line.calls ++ [level])).getLast? = some level
      rw [← List.cons_append]
      exact List.getLast?_concat

/-- A line that is low is called when the device asks for the high level. -/
theorem InStep.lineCalls_set (h : irq.InStep) (level : Bool) :
    (irq.set level).lineCalls = if level = irq.high then irq.lineCalls else irq.lineCalls ++
    [level] := by
  obtain ⟨line, hline, haccepts, -⟩ := h
  by_cases hsame : level = irq.high
  · rw [if_pos hsame, Irq.set, if_pos hsame]
  · rw [if_neg hsame, set_of_ne hline haccepts hsame]
    simp [lineCalls, hline]

end Irq
