/-
The event ledger (`events::Ledger` and its writer thread).

Threads add batches of records to a shared buffer of lines, and one thread writes the buffer to the
file.  Block and net records are dropped when the buffer is full, and the next record that fits
follows a `vmm.dropped` record with their number.  A batch or a close waits for the writer; the
counters `added` and `written` tell it when its lines are in the file.

Every section under the ledger's lock is one action, and so is every part of a write, which may end
or fail after any part of its bytes.  Deadlines may pass at any time.

* `State.add` — the records of one batch go into the buffer;
* `Act.Enabled`, `Act.effect` — when an action can be taken, and what it does;
* `System.Step` — one action of one thread.
-/
import HviVmm.Blk

namespace EventLedger

/-! ### Records -/

/-- A record of a batch, its payload serialized. -/
structure Record where
  provenance : String
  source : String
  payload : List UInt8
  deriving DecidableEq

inductive Payload where
  /-- The payload of a `vmm.dropped` record. -/
  | dropped (records : ℕ)
  | raw (bytes : List UInt8)
  deriving DecidableEq

/-- The envelope of a record. -/
structure RawEvent where
  sandboxId : String
  ts : ℤ
  provenance : String
  corroboration : Option String
  source : String
  payload : Payload
  deriving DecidableEq

/-- The record in the envelope, unless it counts dropped ones. -/
def RawEvent.record? (e : RawEvent) : Option Record :=
  match e.payload with
  | .dropped _ => none
  | .raw bytes => some ⟨e.provenance, e.source, bytes⟩

/-- What the clocks show while a record is added. -/
structure Tick where
  /-- The time of the `vmm.dropped` record, if there is one. -/
  markerTs : ℤ
  ts : ℤ
  now : ℕ

/-! ### The buffer -/

/-- A time in which the buffer drops records. -/
structure Overflow where
  dropped : ℕ
  lastDrop : ℕ

structure OverflowReport where
  started : Bool := false
  ended : ℕ := 0

/-- The buffer and the progress of the writer. -/
structure State where
  lines : List UInt8 := []
  /-- The number of bytes the writer has taken and not written yet. -/
  pending : ℕ := 0
  added : ℕ := 0
  written : ℕ := 0
  dropped : ℕ := 0
  /-- The number of records dropped since the last `vmm.dropped` record. -/
  unmarked : ℕ := 0
  overflow : Option Overflow := none
  /-- A thread waits for lines the writer has not taken yet. -/
  urgent : Bool := false
  /-- The writer waits for lines. -/
  idle : Bool := false
  closed : Bool := false
  failing : Bool := false
  gaveUp : Bool := false

def maxBufferedBytes : ℕ := 4 * 1024 * 1024

/-- One second, in nanoseconds. -/
def overflowQuietInterval : ℕ := 1000000000

namespace State

def isDue (st : State) : Bool := st.closed || st.urgent

def isOverCap (st : State) : Bool := st.lines.length + st.pending > maxBufferedBytes

def endOverflow (st : State) (report : OverflowReport) : State × OverflowReport :=
  match st.overflow with
  | some overflow => ({ st with overflow := none }, { started := false, ended := overflow.dropped })
  | none => (st, report)

def close (st : State) : State × OverflowReport := { st with closed := true }.endOverflow {}

end State

section

variable (json : RawEvent → List UInt8) (sandboxId : String)

/-- The bytes of a record in the file, as `serde_json` writes them. -/
def line (e : RawEvent) : List UInt8 := json e ++ [10]

/-- The bytes of some records. -/
def bytesOf (es : List RawEvent) : List UInt8 := (es.map (line json)).flatten

def Record.event (r : Record) (tick : Tick) : RawEvent where
  sandboxId := sandboxId
  ts := tick.ts
  provenance := r.provenance
  corroboration := none
  source := r.source
  payload := .raw r.payload

/-- The `vmm.dropped` record that the next record follows, if records were dropped. -/
def State.marker (st : State) (tick : Tick) : List RawEvent :=
  if 0 < st.unmarked then
    [{ sandboxId := sandboxId
       ts := tick.markerTs
       provenance := "vmm"
       corroboration := none
       source := "vmm.dropped"
       payload := .dropped st.unmarked }]
  else []

/-- The lines of one record are put at the end of the buffer, and cut off again if it is droppable
and they do not fit.  The records that stay in the buffer are returned beside the state. -/
def State.addRecord (droppable : Bool) (st : State) (report : OverflowReport) (r : Record)
    (tick : Tick) : State × OverflowReport × List RawEvent :=
  let stop := st.lines.length
  let events := st.marker sandboxId tick ++ [r.event sandboxId tick]
  let st := { st with lines := st.lines ++ bytesOf json events }
  if droppable && st.isOverCap then
    let overflow := st.overflow.getD ⟨0, tick.now⟩
    ({ st with
        lines := st.lines.take stop
        unmarked := st.unmarked + 1
        dropped := st.dropped + 1
        overflow := some ⟨overflow.dropped + 1, tick.now⟩ },
      { report with started := report.started || st.overflow.isNone }, [])
  else
    let st := { st with unmarked := 0 }
    let isQuiet := st.overflow.any fun overflow =>
      overflowQuietInterval ≤ tick.now - overflow.lastDrop
    let (st, report) := if droppable && isQuiet then st.endOverflow report else (st, report)
    (st, report, events)

/-- The records of a batch, one after the other; `clock` is read at each. -/
def State.addRecords (droppable : Bool) (clock : ℕ → Tick) :
    ℕ → State → OverflowReport → List Record → State × OverflowReport × List RawEvent
  | _, st, report, [] => (st, report, [])
  | k, st, report, r :: rs =>
    let (st, report, events) := st.addRecord json sandboxId droppable report r (clock k)
    let (st, report, events') := addRecords droppable clock (k + 1) st report rs
    (st, report, events ++ events')

/-- What `Ledger::add` returns: whether the writer is to be woken and the overflows; and beside it
the records that are now in the buffer. -/
structure Added where
  state : State
  wake : Bool
  report : OverflowReport
  events : List RawEvent

def State.add (st : State) (records : List Record) (droppable : Bool) (clock : ℕ → Tick) : Added :=
  let before := st.lines.length
  let (st, report, events) := st.addRecords json sandboxId droppable clock 0 {} records
  let st := { st with added := st.added + 1 }
  let wake := st.idle && before < st.lines.length
  ⟨{ st with idle := st.idle && !wake }, wake, report, events⟩

end

/-! ### The threads -/

/-- A call of another thread.  `invalid` says that a payload failed to serialize. -/
inductive Call where
  | batch (records : List Record) (invalid : Bool)
  | close (records : List Record) (invalid : Bool)
  | captured (records : List Record)
  /-- The ledger is dropped. -/
  | drop

/-- The records that the call adds. -/
def Call.records : Call → List Record
  | batch records _ => records
  | close records invalid => if invalid then [] else records
  | captured records => records
  | drop => []

/-- The call closes the ledger. -/
def Call.isLast : Call → Bool
  | close _ _ | drop => true
  | _ => false

/-- The call's records are dropped if they do not fit. -/
def Call.isDroppable : Call → Bool
  | captured _ => true
  | _ => false

inductive Error where
  /-- A payload failed to serialize. -/
  | invalidData
  | closed
  /-- The records are still buffered. -/
  | timedOut
  | gaveUp
  deriving DecidableEq

/-- Where a call is. -/
inductive CallAt where
  | idle
  /-- In `wait_for_writes`, for the first `added` batches.  `error` is what the call returns if the
  wait succeeds. -/
  | waiting (added : ℕ) (error : Option Error)
  | returned (error : Option Error)
  deriving DecidableEq

/-- Where the writer is. -/
inductive WriterAt where
  /-- At the top of its loop. -/
  | top
  /-- Waiting for lines, with `idle` set. -/
  | idle
  /-- In `write_all_at`, with this many bytes written; `added` is the count it took its lines at. -/
  | writing (added : ℕ) (written : ℕ)
  /-- Past a write that succeeded, before it takes the lock. -/
  | wrote (added : ℕ)
  /-- Out of the loop, before the last section under the lock. -/
  | leaving
  | finished
  | gaveUp
  deriving DecidableEq

/-- A ledger, its file, its writer and the calls of the other threads; `C` names the calls that are
ever made. -/
structure System (C : Type*) where
  state : State := {}
  file : List UInt8 := []
  writer : WriterAt := .top
  /-- The writer's own variables. -/
  taken : List UInt8 := []
  offset : ℕ := 0
  failing : Bool := false
  call : C → CallAt := fun _ => .idle
  /-- The batches added so far, each with the records of it that were accepted. -/
  accepted : List (C × List RawEvent) := []

inductive Act (C : Type*) where
  /-- The section of a call under the lock, up to its wait. -/
  | submit (c : C) (clock : ℕ → Tick)
  /-- The wait of a call ends, for the writer or the deadline. -/
  | endWait (c : C)
  /-- `wait_for_lines` finds nothing to do. -/
  | goIdle
  /-- The writer takes the lines; `expired` says that the time to try after the close is over. -/
  | take (expired : Bool)
  /-- `write_all_at` writes some more bytes. -/
  | writeSome (k : ℕ)
  | failWrite
  | endWrite
  /-- The section of the writer under the lock after a write that succeeded. -/
  | settle
  /-- The writer's last section under the lock. -/
  | finish

section

variable {C : Type*} [DecidableEq C] (json : RawEvent → List UInt8) (sandboxId : String)
  (calls : C → Call)

/-- The section of `submit`, of `captured` or of the drop under the lock. -/
def System.submit (s : System C) (c : C) (clock : ℕ → Tick) : System C :=
  let return_ := fun (s : System C) (p : CallAt) => { s with call := Function.update s.call c p }
  let add := fun (s : System C) =>
    let added := s.state.add json sandboxId (calls c).records (calls c).isDroppable clock
    { s with state := added.state, accepted := s.accepted ++ [(c, added.events)] }
  let close := fun (s : System C) => { s with state := s.state.close.1 }
  match calls c with
  | .batch _ invalid =>
    if invalid then return_ s (.returned (some .invalidData))
    else if s.state.closed then return_ s (.returned (some .closed))
    else
      let s := add s
      return_ { s with state := { s.state with urgent := true } } (.waiting s.state.added none)
  | .close _ invalid =>
    if s.state.closed then return_ s (.waiting s.state.added (some .closed))
    else
      let s := close (add s)
      return_ s (.waiting s.state.added (if invalid then some .invalidData else none))
  | .captured records =>
    if records = [] ∨ s.state.closed then return_ s (.returned none)
    else return_ (add s) (.returned none)
  | .drop =>
    if s.state.closed then return_ s (.returned none)
    else
      let s := close s
      let s := { s with
        state := { s.state with added := s.state.added + 1 }, accepted := s.accepted ++ [(c, [])] }
      return_ s (.waiting s.state.added none)

/-- What `wait_for_writes` returns. -/
def State.waitResult (st : State) (added : ℕ) : Option Error :=
  if added ≤ st.written then none
  else if st.gaveUp then some .gaveUp
  else some .timedOut

/-- The writer has something to do. -/
def State.hasWork (st : State) : Bool := !st.lines.isEmpty || st.isDue

namespace Act

/-- When the action can be taken. -/
def Enabled (s : System C) : Act C → Prop
  | submit c _ => s.call c = .idle
  | endWait c => ∃ added error, s.call c = .waiting added error
  | goIdle => s.writer = .top ∧ s.failing = false ∧ s.state.hasWork = false
  | take _ =>
    (s.writer = .top ∧ (s.failing = true ∨ s.state.hasWork = true)) ∨
      (s.writer = .idle ∧ s.state.hasWork = true)
  | writeSome k => ∃ added written, s.writer = .writing added written ∧ written + k ≤ s.taken.length
  | failWrite => ∃ added written, s.writer = .writing added written
  | endWrite => ∃ added, s.writer = .writing added s.taken.length
  | settle => ∃ added, s.writer = .wrote added
  | finish => s.writer = .leaving

/-- What the action does, where it can be taken. -/
def effect (s : System C) : Act C → System C
  | submit c clock => s.submit json sandboxId calls c clock
  | endWait c =>
    match s.call c with
    | .waiting added error =>
      { s with
        call := Function.update s.call c (.returned ((s.state.waitResult added).or error)) }
    | _ => s
  | goIdle => { s with writer := .idle, state := { s.state with idle := true } }
  | take expired =>
    let state := { s.state with idle := s.state.idle && s.writer != .idle }
    if state.closed && state.lines.isEmpty && s.taken.isEmpty then
      { s with writer := .leaving, state := state }
    else if s.failing && state.closed && expired then
      { s with
        writer := .gaveUp
        state := { state with lines := [], pending := 0, gaveUp := true } }
    else
      let taken := s.taken ++ state.lines
      { s with
        writer := .writing state.added 0
        taken := taken
        state := { state with lines := [], pending := taken.length, urgent := false } }
  | writeSome k =>
    match s.writer with
    | .writing added written =>
      { s with
        writer := .writing added (written + k)
        file := HostFile.splice s.file (s.offset + written) ((s.taken.drop written).take k) }
    | _ => s
  | failWrite =>
    { s with writer := .top, failing := true, state := { s.state with failing := true } }
  | endWrite =>
    match s.writer with
    | .writing added _ =>
      { s with
        writer := .wrote added
        failing := false
        offset := s.offset + s.taken.length
        taken := [] }
    | _ => s
  | settle =>
    match s.writer with
    | .wrote added =>
      let state := { s.state with failing := false, pending := 0 }
      if state.closed && state.lines.isEmpty then { s with writer := .leaving, state := state }
      else { s with writer := .top, state := { state with written := added } }
    | _ => s
  | finish =>
    { s with writer := .finished, state := { s.state with written := s.state.added } }

end Act

/-- One action of one thread. -/
def System.Step (a : Act C) (s s' : System C) : Prop :=
  a.Enabled s ∧ s' = a.effect json sandboxId calls s

end

end EventLedger
