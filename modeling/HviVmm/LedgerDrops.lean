/-
The event ledger accounts for every record it drops.

A log keeps what became of each record that was offered to the buffer, in order.  The counters of
the ledger and the `vmm.dropped` records in it say what the log says:

* `State.addRecord_cases` — a record is refused, or kept behind the count of those refused before
  it;
* `State.Accounts` — the counters and the marked runs of refusals, against the log;
* `ledger_drop_accounting` — in every state reached.
-/
import HviVmm.LabelledSteps
import HviVmm.LedgerAdds

open LabelledSteps

namespace EventLedger

/-! ### The log -/

/-- What became of a record that was offered to the buffer. -/
inductive Offer where
  /-- The events are in the buffer, which then holds `held` bytes with those the writer has
  taken. -/
  | kept (droppable : Bool) (record : Record) (events : List RawEvent) (held : ℕ)
  | refused (droppable : Bool)

namespace Offer

def isRefused : Offer → Bool
  | kept .. => false
  | refused _ => true

def events : Offer → List RawEvent
  | kept _ _ events _ => events
  | refused _ => []

end Offer

/-- The `vmm.dropped` record that counts `n` records. -/
def droppedRecord (sandboxId : String) (ts : ℤ) (n : ℕ) : RawEvent where
  sandboxId := sandboxId
  ts := ts
  provenance := "vmm"
  corroboration := none
  source := "vmm.dropped"
  payload := .dropped n

/-- The count in a `vmm.dropped` record. -/
def RawEvent.count (e : RawEvent) : ℕ :=
  match e.payload with
  | .dropped n => n
  | .raw _ => 0

/-- The counts in the `vmm.dropped` records. -/
def marked (es : List RawEvent) : ℕ := (es.map RawEvent.count).sum

/-- How many offers at the end were refused. -/
def trailing (log : List Offer) : ℕ := (log.reverse.takeWhile Offer.isRefused).length

theorem marked_append (es es' : List RawEvent) : marked (es ++ es') = marked es + marked es' := by
  simp [marked]

/-- Where a list with one more element at the end is split before an element. -/
theorem snoc_eq_append_cons {α : Type*} {l l₁ l₂ : List α} {o x : α}
    (h : l ++ [o] = l₁ ++ x :: l₂) :
    (l₂ = [] ∧ l = l₁ ∧ o = x) ∨ ∃ l₃, l₂ = l₃ ++ [o] ∧ l = l₁ ++ x :: l₃ := by
  rcases List.eq_nil_or_concat l₂ with rfl | ⟨l₃, y, rfl⟩
  · obtain ⟨hl, hx⟩ := List.append_inj' h rfl
    exact .inl ⟨rfl, hl, List.singleton_inj.mp hx⟩
  · rw [List.concat_eq_append, ← List.cons_append, ← List.append_assoc] at h
    obtain ⟨hl, hy⟩ := List.append_inj' h rfl
    rw [List.singleton_inj.mp hy]
    exact .inr ⟨l₃, List.concat_eq_append, hl⟩

section Trailing

variable {log : List Offer} {o : Offer}

theorem trailing_refused (ho : o.isRefused = true) : trailing (log ++ [o]) = trailing log + 1 := by
  simp [trailing, ho]

theorem trailing_kept (ho : o.isRefused = false) : trailing (log ++ [o]) = 0 := by
  simp [trailing, ho]

theorem trailing_run {run : List Offer} (hrun : ∀ o ∈ run, o.isRefused = true)
    (hlast : ∀ o, log.getLast? = some o → o.isRefused = false) :
    trailing (log ++ run) = run.length := by
  have hall : ∀ o ∈ run.reverse, o.isRefused = true := fun o ho => hrun o (List.mem_reverse.mp ho)
  have hstop : (log.reverse).takeWhile Offer.isRefused = [] := by
    cases hrev : log.reverse with
    | nil => rfl
    | cons o rest =>
      have hlog : log.getLast? = some o := by
        rw [← List.head?_reverse, hrev]
        rfl
      rw [List.takeWhile_cons, hlast o hlog]
      rfl
  rw [trailing, List.reverse_append, List.takeWhile_append_of_pos hall, List.length_append, hstop,
    List.length_reverse]
  rfl

end Trailing

section

variable (json : RawEvent → List UInt8) (sandboxId : String)

/-- What becomes of one record. -/
def State.offer (droppable : Bool) (st : State) (report : OverflowReport) (r : Record)
    (tick : Tick) : Offer :=
  let added := st.addRecord json sandboxId droppable report r tick
  if added.2.2.isEmpty then .refused droppable
  else .kept droppable r added.2.2 (added.1.lines.length + added.1.pending)

/-- What becomes of the records of a batch. -/
def State.offers (droppable : Bool) (clock : ℕ → Tick) :
    ℕ → State → OverflowReport → List Record → List Offer
  | _, _, _, [] => []
  | k, st, report, r :: rs =>
    let added := st.addRecord json sandboxId droppable report r (clock k)
    st.offer json sandboxId droppable report r (clock k) ::
      offers droppable clock (k + 1) added.1 added.2.1 rs

end

namespace State

variable {json : RawEvent → List UInt8} {sandboxId : String} {st st' : State} {droppable : Bool}
  {r : Record} {tick : Tick} {log : List Offer}

/-! ### One record -/

/-- The record is cut off again and counted. -/
structure Refuses (droppable : Bool) (st st' : State) : Prop where
  droppable : droppable = true
  lines : st'.lines = st.lines
  pending : st'.pending = st.pending
  unmarked : st'.unmarked = st.unmarked + 1
  dropped : st'.dropped = st.dropped + 1

/-- The record stays, behind the count of the records refused before it. -/
structure Keeps (json : RawEvent → List UInt8) (sandboxId : String) (droppable : Bool) (r : Record)
    (tick : Tick) (st st' : State) (events : List RawEvent) : Prop where
  stay : events = st.marker sandboxId tick ++ [r.event sandboxId tick]
  lines : st'.lines = st.lines ++ bytesOf json events
  pending : st'.pending = st.pending
  unmarked : st'.unmarked = 0
  dropped : st'.dropped = st.dropped
  fits : droppable = true → st'.lines.length + st'.pending ≤ maxBufferedBytes

theorem endOverflow_buffer (st : State) (report : OverflowReport) :
    (st.endOverflow report).1.pending = st.pending ∧
      (st.endOverflow report).1.unmarked = st.unmarked ∧
      (st.endOverflow report).1.dropped = st.dropped := by
  unfold endOverflow
  split <;> exact ⟨rfl, rfl, rfl⟩

/-- **A record is refused or kept.** -/
theorem addRecord_cases (json : RawEvent → List UInt8) (sandboxId : String) (droppable : Bool)
    (st : State) (report : OverflowReport) (r : Record) (tick : Tick) :
    ((st.addRecord json sandboxId droppable report r tick).2.2 = [] ∧
      Refuses droppable st (st.addRecord json sandboxId droppable report r tick).1) ∨
    Keeps json sandboxId droppable r tick st (st.addRecord json sandboxId droppable report r tick).1
      (st.addRecord json sandboxId droppable report r tick).2.2 := by
  unfold addRecord
  simp only
  split
  · next hover =>
    rw [Bool.and_eq_true] at hover
    refine .inl ⟨rfl, hover.1, ?_, rfl, rfl, rfl⟩
    exact List.take_left
  · next hfit =>
    have hcap : droppable = true → (st.lines ++ bytesOf json (st.marker sandboxId tick ++
        [r.event sandboxId tick])).length + st.pending ≤ maxBufferedBytes := by
      intro hd
      rw [hd, Bool.true_and, isOverCap, decide_eq_true_eq, not_lt] at hfit
      exact hfit
    split
    · obtain ⟨hpending, hunmarked, hdropped⟩ := endOverflow_buffer
        { st with lines := st.lines ++ bytesOf json (st.marker sandboxId tick ++
            [r.event sandboxId tick]), unmarked := 0 } report
      refine .inr ⟨rfl, endOverflow_lines, hpending, hunmarked, hdropped, fun hd => ?_⟩
      rw [endOverflow_lines, hpending]
      exact hcap hd
    · exact .inr ⟨rfl, rfl, rfl, rfl, rfl, hcap⟩

/-! ### The accounts -/

/-- The counters and the marked runs of refusals say what the log says. -/
structure Accounts (sandboxId : String) (st : State) (log : List Offer) : Prop where
  dropped : st.dropped = log.countP Offer.isRefused
  unmarked : st.unmarked = trailing log
  marked : marked (log.flatMap Offer.events) + st.unmarked = st.dropped
  /-- A maximal run of refusals is counted directly before the next record kept. -/
  runs : ∀ l₁ run d r events held l₂, log = l₁ ++ run ++ .kept d r events held :: l₂ →
    (∀ o ∈ run, o.isRefused = true) → (∀ o, l₁.getLast? = some o → o.isRefused = false) →
    ∃ tick : Tick, events =
      (if run = [] then [] else [droppedRecord sandboxId tick.markerTs run.length]) ++
        [r.event sandboxId tick]
  refused : .refused false ∉ log
  fits : ∀ r events held, .kept true r events held ∈ log → held ≤ maxBufferedBytes

/-- The accounts are about two of the counters only. -/
theorem Accounts.congr (h : Accounts sandboxId st log) (hdropped : st'.dropped = st.dropped)
    (hunmarked : st'.unmarked = st.unmarked) : Accounts sandboxId st' log where
  dropped := hdropped.trans h.dropped
  unmarked := hunmarked.trans h.unmarked
  marked := by rw [hunmarked, hdropped, h.marked]
  runs := h.runs
  refused := h.refused
  fits := h.fits

theorem marker_eq (st : State) (tick : Tick) :
    st.marker sandboxId tick =
      if st.unmarked = 0 then [] else [droppedRecord sandboxId tick.markerTs st.unmarked] := by
  unfold marker
  by_cases h : st.unmarked = 0
  · rw [if_neg (by omega), if_pos h]
  · rw [if_pos (by omega), if_neg h]
    rfl

theorem marked_marker (st : State) (tick : Tick) :
    EventLedger.marked (st.marker sandboxId tick) = st.unmarked := by
  rw [marker_eq]
  split
  · next h => simp [EventLedger.marked, h]
  · simp [EventLedger.marked, RawEvent.count, droppedRecord]

theorem Refuses.accounts (h : Refuses droppable st st') (hst : Accounts sandboxId st log) :
    Accounts sandboxId st' (log ++ [.refused droppable]) where
  dropped := by
    rw [h.dropped, hst.dropped, List.countP_append]
    rfl
  unmarked := by
    rw [h.unmarked, hst.unmarked, trailing_refused rfl]
  marked := by
    have hm := hst.marked
    rw [List.flatMap_append, marked_append, h.unmarked, h.dropped]
    have hnone : EventLedger.marked ([Offer.refused droppable].flatMap Offer.events) = 0 := rfl
    omega
  runs l₁ run d r events held l₂ heq := by
    -- the last one is not the one kept
    rcases snoc_eq_append_cons heq with ⟨-, -, hkept⟩ | ⟨l₃, -, hlog⟩
    · cases hkept
    · exact hst.runs l₁ run d r events held l₃ hlog
  refused := by
    rw [h.droppable]
    intro hmem
    rcases List.mem_append.mp hmem with hold | hnew
    · exact hst.refused hold
    · cases List.mem_singleton.mp hnew
  fits r events held hmem := by
    rcases List.mem_append.mp hmem with hold | hnew
    · exact hst.fits r events held hold
    · cases List.mem_singleton.mp hnew

theorem Keeps.accounts {events : List RawEvent}
    (h : Keeps json sandboxId droppable r tick st st' events) (hst : Accounts sandboxId st log) :
    Accounts sandboxId st'
      (log ++ [.kept droppable r events (st'.lines.length + st'.pending)]) where
  dropped := by
    rw [h.dropped, hst.dropped, List.countP_append]
    rfl
  unmarked := by rw [h.unmarked, trailing_kept rfl]
  marked := by
    have hm := hst.marked
    have hone : EventLedger.marked [r.event sandboxId tick] = 0 := rfl
    have hnew : [Offer.kept droppable r events (st'.lines.length + st'.pending)].flatMap
        Offer.events = events := List.append_nil _
    rw [List.flatMap_append, hnew, marked_append, h.stay, marked_append, marked_marker, hone,
      h.unmarked, h.dropped]
    omega
  runs l₁ run d r' events' held l₂ heq hrun hlast := by
    rcases snoc_eq_append_cons heq with ⟨-, hlog, hkept⟩ | ⟨l₃, -, hlog⟩
    · -- the run is what was refused at the end of the log, which the ledger has counted
      cases hkept
      refine ⟨tick, ?_⟩
      have hcount : st.unmarked = run.length := by
        rw [hst.unmarked, hlog, trailing_run hrun hlast]
      rw [h.stay, marker_eq, hcount]
      by_cases hnil : run = []
      · rw [if_pos hnil, hnil]
        rfl
      · rw [if_neg hnil, if_neg fun hzero => hnil (List.length_eq_zero_iff.mp hzero)]
    · exact hst.runs l₁ run d r' events' held l₃ hlog hrun hlast
  refused := by
    intro hmem
    rcases List.mem_append.mp hmem with hold | hnew
    · exact hst.refused hold
    · cases List.mem_singleton.mp hnew
  fits r' events' held hmem := by
    rcases List.mem_append.mp hmem with hold | hnew
    · exact hst.fits r' events' held hold
    · cases List.mem_singleton.mp hnew
      exact h.fits rfl

/-- **One record** is accounted for. -/
theorem addRecord_accounts (droppable : Bool) (report : OverflowReport) (r : Record) (tick : Tick)
    (hst : Accounts sandboxId st log) :
    Accounts sandboxId (st.addRecord json sandboxId droppable report r tick).1
      (log ++ [st.offer json sandboxId droppable report r tick]) := by
  rcases addRecord_cases json sandboxId droppable st report r tick with ⟨hnone, href⟩ | hkeep
  · rw [offer, hnone]
    exact href.accounts hst
  · have hsome : (st.addRecord json sandboxId droppable report r tick).2.2.isEmpty = false := by
      rw [hkeep.stay]
      simp
    rw [offer, hsome]
    exact hkeep.accounts hst

theorem addRecords_accounts (droppable : Bool) (clock : ℕ → Tick) (k : ℕ) (report : OverflowReport)
    (rs : List Record) (hst : Accounts sandboxId st log) :
    Accounts sandboxId (st.addRecords json sandboxId droppable clock k report rs).1
      (log ++ st.offers json sandboxId droppable clock k report rs) := by
  induction rs generalizing k st report log with
  | nil =>
    rw [offers, List.append_nil]
    exact hst
  | cons r rs ih =>
    have hone : Accounts sandboxId (st.addRecord json sandboxId droppable report r (clock k)).1
        (log ++ [st.offer json sandboxId droppable report r (clock k)]) :=
      addRecord_accounts droppable report r (clock k) hst
    have hrest := ih (k + 1) (st.addRecord json sandboxId droppable report r (clock k)).2.1 hone
    rw [List.append_assoc, List.singleton_append] at hrest
    exact hrest

theorem offers_events (droppable : Bool) (clock : ℕ → Tick) (k : ℕ) (st : State)
    (report : OverflowReport) (rs : List Record) :
    (st.offers json sandboxId droppable clock k report rs).flatMap Offer.events =
      (st.addRecords json sandboxId droppable clock k report rs).2.2 := by
  induction rs generalizing k st report with
  | nil => rfl
  | cons r rs ih =>
    have hone : (st.offer json sandboxId droppable report r (clock k)).events =
        (st.addRecord json sandboxId droppable report r (clock k)).2.2 := by
      rw [offer]
      cases hevents : (st.addRecord json sandboxId droppable report r (clock k)).2.2 with
      | nil => rfl
      | cons e es => rfl
    rw [offers, List.flatMap_cons, hone, ih]
    rfl

end State

/-! ### The ledger -/

section

variable {C : Type*} [DecidableEq C] (json : RawEvent → List UInt8) (sandboxId : String)
  (calls : C → Call)

/-- The records a call offers to the buffer: none if the ledger is closed or the batch did not
serialize. -/
def Call.offered (st : State) : Call → List Record
  | .batch records invalid => if invalid || st.closed then [] else records
  | .close records invalid => if invalid || st.closed then [] else records
  | .captured records => if st.closed then [] else records
  | .drop => []

/-- What becomes of the records an action offers. -/
def System.offers (s : System C) : Act C → List Offer
  | .submit c clock =>
    s.state.offers json sandboxId (calls c).isDroppable clock 0 {} ((calls c).offered s.state)
  | _ => []

/-- A ledger with the log of its offers. -/
structure Logged (C : Type*) where
  system : System C := {}
  log : List Offer := []

def Logged.Step (a : Act C) (t t' : Logged C) : Prop :=
  t.system.Step json sandboxId calls a t'.system ∧
    t'.log = t.log ++ t.system.offers json sandboxId calls a

end

section

variable {C : Type*} [DecidableEq C] {json : RawEvent → List UInt8} {sandboxId : String}
  {calls : C → Call} {s s' : System C}
variable {t : Logged C}

/-- The parts of the state the accounts speak of. -/
structure State.SameBuffer (st st' : State) : Prop where
  lines : st'.lines = st.lines
  dropped : st'.dropped = st.dropped
  unmarked : st'.unmarked = st.unmarked

theorem State.add_buffer (st : State) (rs : List Record) (droppable : Bool) (clock : ℕ → Tick) :
    SameBuffer (st.addRecords json sandboxId droppable clock 0 {} rs).1
      (st.add json sandboxId rs droppable clock).state :=
  ⟨rfl, rfl, rfl⟩

theorem State.close_buffer (st : State) : SameBuffer st st.close.1 := by
  obtain ⟨-, hunmarked, hdropped⟩ := endOverflow_buffer { st with closed := true } {}
  exact ⟨endOverflow_lines, hdropped, hunmarked⟩

theorem State.SameBuffer.trans {st st₁ st₂ : State} (h : SameBuffer st st₁)
    (h' : SameBuffer st₁ st₂) : SameBuffer st st₂ :=
  ⟨h'.lines.trans h.lines, h'.dropped.trans h.dropped, h'.unmarked.trans h.unmarked⟩

/-- The records the call offers were added: to the buffer, and those kept as a batch. -/
structure System.Offered (json : RawEvent → List UInt8) (sandboxId : String) (calls : C → Call)
    (c : C) (clock : ℕ → Tick) (s s' : System C) : Prop where
  buffer : State.SameBuffer
    (s.state.addRecords json sandboxId (calls c).isDroppable clock 0 {}
      ((calls c).offered s.state)).1 s'.state
  accepted : ∃ more, s'.accepted = s.accepted ++ more ∧
    more.flatMap (·.2) = (s.state.addRecords json sandboxId (calls c).isDroppable clock 0 {}
      ((calls c).offered s.state)).2.2

omit [DecidableEq C] in
theorem System.Offered.pass {c : C} {clock : ℕ → Tick} {call : C → CallAt}
    (hoff : (calls c).offered s.state = []) :
    Offered json sandboxId calls c clock s { s with call } := by
  refine ⟨?_, [], (List.append_nil _).symm, ?_⟩
  · rw [hoff]
    exact ⟨rfl, rfl, rfl⟩
  · rw [hoff]
    rfl

omit [DecidableEq C] in
theorem System.Offered.adds {c : C} {clock : ℕ → Tick} {call : C → CallAt} {st : State}
    (hoff : (calls c).offered s.state = (calls c).records)
    (hst : State.SameBuffer
      (s.state.add json sandboxId (calls c).records (calls c).isDroppable clock).state st) :
    Offered json sandboxId calls c clock s
      { s with
        state := st
        accepted := s.accepted ++
          [(c, (s.state.add json sandboxId (calls c).records (calls c).isDroppable clock).events)]
        call } := by
  refine ⟨?_, [(c, _)], rfl, ?_⟩
  · rw [hoff]
    exact (State.add_buffer s.state _ _ clock).trans hst
  · rw [hoff]
    exact List.append_nil _

/-- **A call adds the records it offers.** -/
theorem System.submit_offers (s : System C) (c : C) (clock : ℕ → Tick) :
    Offered json sandboxId calls c clock s (s.submit json sandboxId calls c clock) := by
  unfold submit
  cases hclosed : s.state.closed with
  | true =>
    have hoff : (calls c).offered s.state = [] := by
      cases calls c <;> simp [Call.offered, hclosed]
    simp only [or_true, if_true]
    split
    · split
      · exact .pass hoff
      · exact .pass hoff
    · exact .pass hoff
    · exact .pass hoff
    · exact .pass hoff
  | false =>
    simp only [or_false, Bool.false_eq_true, if_false]
    split
    · next records invalid hc =>
      split
      · next hinv => exact .pass (by simp [hc, Call.offered, hinv])
      · next hinv =>
        exact .adds (by simp [hc, Call.offered, Call.records, hinv, hclosed]) ⟨rfl, rfl, rfl⟩
    · next records invalid hc =>
      exact .adds (by simp [hc, Call.offered, Call.records, hclosed]) (State.close_buffer _)
    · next records hc =>
      split
      · next hnil => exact .pass (by simp [hc, Call.offered, hnil])
      · exact .adds (by simp [hc, Call.offered, Call.records, hclosed]) ⟨rfl, rfl, rfl⟩
    · next hc =>
      -- the drop adds a batch without records
      have hnone : (calls c).offered s.state = [] := by simp [hc, Call.offered]
      have hsame := State.close_buffer s.state
      refine ⟨?_, [(c, [])], rfl, ?_⟩
      · rw [hnone]
        exact ⟨hsame.lines, hsame.dropped, hsame.unmarked⟩
      · rw [hnone]
        rfl

/-! ### Every state reached -/

/-- The accounts, and where the lines kept are. -/
structure Logged.Inv (json : RawEvent → List UInt8) (sandboxId : String) (t : Logged C) : Prop where
  accounts : t.system.state.Accounts sandboxId t.log
  events : t.log.flatMap Offer.events = t.system.accepted.flatMap (·.2)
  /-- The buffer holds whole lines: those of the batches since the writer last took them. -/
  whole : ∃ k ≤ t.system.accepted.length,
    t.system.state.lines = bytesOf json ((t.system.accepted.drop k).flatMap (·.2))

theorem Logged.Inv.submit (h : t.Inv json sandboxId) (c : C) (clock : ℕ → Tick) :
    Inv json sandboxId
      ⟨t.system.submit json sandboxId calls c clock,
        t.log ++ t.system.offers json sandboxId calls (.submit c clock)⟩ := by
  obtain ⟨hbuffer, more, hmore, hevents⟩ : System.Offered json sandboxId calls c clock t.system
    (t.system.submit json sandboxId calls c clock) := t.system.submit_offers c clock
  obtain ⟨k, hk, hlines⟩ := h.whole
  have hadds : State.Adds json (calls c).isDroppable ((calls c).offered t.system.state)
      t.system.state
      (t.system.state.addRecords json sandboxId (calls c).isDroppable clock 0 {}
        ((calls c).offered t.system.state)).1
      (t.system.state.addRecords json sandboxId (calls c).isDroppable clock 0 {}
        ((calls c).offered t.system.state)).2.2 := State.addRecords_adds 0 _ _ _
  refine ⟨?_, ?_, k, ?_, ?_⟩
  · exact (State.addRecords_accounts _ clock 0 {} _ h.accounts).congr hbuffer.dropped
      hbuffer.unmarked
  · rw [hmore, List.flatMap_append, List.flatMap_append, h.events, hevents]
    rw [System.offers, State.offers_events]
  · rw [hmore, List.length_append]
    omega
  · rw [hbuffer.lines, hadds.lines, hmore, List.drop_append_of_le_length hk, List.flatMap_append,
      bytesOf_append, hevents, hlines]

omit [DecidableEq C] in
/-- A step that adds nothing keeps the lines or takes them away. -/
theorem Logged.Inv.of_same (h : t.Inv json sandboxId) (hacc : s.accepted = t.system.accepted)
    (hdropped : s.state.dropped = t.system.state.dropped)
    (hunmarked : s.state.unmarked = t.system.state.unmarked)
    (hlines : s.state.lines = t.system.state.lines ∨ s.state.lines = []) :
    Inv json sandboxId ⟨s, t.log ++ []⟩ := by
  refine ⟨?_, ?_, ?_⟩
  · rw [List.append_nil]
    exact h.accounts.congr hdropped hunmarked
  · rw [List.append_nil, hacc]
    exact h.events
  · rw [hacc]
    rcases hlines with hsame | hnil
    · rw [hsame]
      exact h.whole
    · refine ⟨t.system.accepted.length, le_rfl, ?_⟩
      rw [hnil, List.drop_length]
      rfl

theorem Logged.Step.inv {t' : Logged C} {a : Act C} (h : t.Inv json sandboxId)
    (hstep : t.Step json sandboxId calls a t') : t'.Inv json sandboxId := by
  obtain ⟨⟨hen, hsys⟩, hlog⟩ := hstep
  have ht' : t' = ⟨a.effect json sandboxId calls t.system,
      t.log ++ t.system.offers json sandboxId calls a⟩ := by
    cases t'
    cases hsys
    cases hlog
    rfl
  rw [ht']
  cases a with
  | submit c clock => exact h.submit c clock
  | endWait c =>
    obtain ⟨added, error, hcall⟩ := hen
    simp only [Act.effect, hcall]
    exact h.of_same rfl rfl rfl (.inl rfl)
  | goIdle | failWrite | finish => exact h.of_same rfl rfl rfl (.inl rfl)
  | take expired =>
    simp only [Act.effect]
    split
    · exact h.of_same rfl rfl rfl (.inl rfl)
    · split
      · exact h.of_same rfl rfl rfl (.inr rfl)
      · exact h.of_same rfl rfl rfl (.inr rfl)
  | writeSome k =>
    obtain ⟨added, written, hat, -⟩ := hen
    simp only [Act.effect, hat]
    exact h.of_same rfl rfl rfl (.inl rfl)
  | endWrite =>
    obtain ⟨added, hat⟩ := hen
    simp only [Act.effect, hat]
    exact h.of_same rfl rfl rfl (.inl rfl)
  | settle =>
    obtain ⟨added, hat⟩ := hen
    simp only [Act.effect, hat]
    split
    · exact h.of_same rfl rfl rfl (.inl rfl)
    · exact h.of_same rfl rfl rfl (.inl rfl)

omit [DecidableEq C] in
theorem Logged.init_inv : Inv json sandboxId ({} : Logged C) := by
  refine ⟨⟨rfl, rfl, rfl, ?_, nofun, nofun⟩, rfl, 0, le_rfl, rfl⟩
  intro l₁ run d r events held l₂ heq
  simp at heq

/-- **The ledger accounts for the records it drops.**  In every state reached, with the log of what
became of each record that was offered:

* the counts in the accepted `vmm.dropped` records and `unmarked` add up to `dropped`, which is how
  many records were refused;
* a maximal run of refused records is counted by a `vmm.dropped` record directly before the next
  record that was kept, and no other record has one before it;
* a record of a batch or a close was not refused;
* a record that may be dropped was kept only if it left at most `maxBufferedBytes` bytes buffered or
  taken;
* the buffer holds whole lines, those of the last batches accepted. -/
theorem ledger_drop_accounting {t : Logged C}
    (h : Steps (Logged.Step json sandboxId calls) (fun _ => True) {} t) :
    t.log.flatMap Offer.events = t.system.accepted.flatMap (·.2) ∧
    marked (t.system.accepted.flatMap (·.2)) + t.system.state.unmarked = t.system.state.dropped ∧
    t.system.state.dropped = t.log.countP Offer.isRefused ∧
    (∀ l₁ run d r events held l₂, t.log = l₁ ++ run ++ .kept d r events held :: l₂ →
      (∀ o ∈ run, o.isRefused = true) → (∀ o, l₁.getLast? = some o → o.isRefused = false) →
      ∃ tick : Tick, events =
        (if run = [] then [] else [droppedRecord sandboxId tick.markerTs run.length]) ++
          [r.event sandboxId tick]) ∧
    .refused false ∉ t.log ∧
    (∀ r events held, .kept true r events held ∈ t.log → held ≤ maxBufferedBytes) ∧
    ∃ k, t.system.state.lines = bytesOf json ((t.system.accepted.drop k).flatMap (·.2)) := by
  obtain ⟨haccounts, hevents, k, -, hlines⟩ : t.Inv json sandboxId :=
    h.inv (fun _ hstep hs => hstep.inv hs) Logged.init_inv
  refine ⟨hevents, ?_, haccounts.dropped, haccounts.runs, haccounts.refused, haccounts.fits, k,
    hlines⟩
  rw [← hevents]
  exact haccounts.marked

end

/-- A ledger whose one call captures a record with this payload and a short one. -/
def oneCapture (bytes : List UInt8) : Fin 1 → Call := fun _ =>
  .captured [⟨"boundary", "block", bytes⟩, ⟨"boundary", "block", [7]⟩]

/-- Payloads as they are. -/
def plainJson (e : RawEvent) : List UInt8 :=
  match e.payload with
  | .dropped _ => []
  | .raw bytes => bytes

theorem oneCapture_dropped {bytes : List UInt8} (h : maxBufferedBytes ≤ bytes.length) :
    ∃ t, Steps (Logged.Step plainJson "sandbox" (oneCapture bytes)) (fun _ => True) {} t ∧
      t.system.state.dropped = 1 ∧ t.system.state.unmarked = 0 := by
  have hover : maxBufferedBytes < (bytesOf plainJson [Record.event "sandbox"
      ⟨"boundary", "block", bytes⟩ ⟨0, 0, 0⟩]).length := by
    simp only [bytesOf, line, plainJson, Record.event, List.map_cons, List.map_nil,
      List.flatten_cons,
      List.flatten_nil, List.append_nil, List.length_append, List.length_cons, List.length_nil]
    omega
  -- the short record fits with the marker before it
  have hfits : ¬maxBufferedBytes < (bytesOf plainJson [droppedRecord "sandbox" 0 1,
      Record.event "sandbox" ⟨"boundary", "block", [7]⟩ ⟨0, 0, 0⟩]).length := by
    decide
  unfold droppedRecord at hfits
  have hstate : let st := (System.submit plainJson "sandbox" (oneCapture bytes) {} 0
      fun _ => ⟨0, 0, 0⟩).state
      st.dropped = 1 ∧ st.unmarked = 0 := by
    simp [System.submit, oneCapture, State.add, State.addRecords, Call.records, Call.isDroppable,
      State.addRecord, State.marker, State.isOverCap, hover, hfits, overflowQuietInterval]
  refine ⟨⟨System.submit plainJson "sandbox" (oneCapture bytes) {} 0 fun _ => ⟨0, 0, 0⟩, _⟩,
    .single (l := .submit 0 fun _ => ⟨0, 0, 0⟩) trivial ⟨⟨?_, rfl⟩, rfl⟩, hstate⟩
  exact (rfl : ({} : System (Fin 1)).call 0 = .idle)

/-- The record that was refused is counted before the one that was kept. -/
theorem ledger_drop_accounting_long :
    ∃ t : Logged (Fin 1), t.system.state.dropped = 1 ∧ t.system.state.unmarked = 0 ∧
      marked (t.system.accepted.flatMap (·.2)) = 1 := by
  obtain ⟨t, hrun, hdropped, hunmarked⟩ := oneCapture_dropped
    (List.length_replicate : (List.replicate maxBufferedBytes (0 : UInt8)).length = _).ge
  have hcounts := (ledger_drop_accounting hrun).2.1
  rw [hunmarked, hdropped] at hcounts
  exact ⟨t, hdropped, hunmarked, hcounts⟩

end EventLedger
