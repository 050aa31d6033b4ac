/-
What the calls of the event ledger add.

* `State.add_adds` — the records of a batch go into the buffer whole, and those that may be dropped
  leave nothing of themselves if they do not fit;
* `System.submit_cases` — a call adds nothing, or adds its batch to a ledger that is not closed.
-/
import HviVmm.EventLedger

namespace EventLedger

variable {json : RawEvent → List UInt8} {sandboxId : String}

/-! ### Adding records -/

theorem bytesOf_append (es es' : List RawEvent) :
    bytesOf json (es ++ es') = bytesOf json es ++ bytesOf json es' := by
  simp [bytesOf]

namespace State

variable {st : State} {report : OverflowReport} {droppable : Bool} {r : Record} {rs : List Record}
  {tick : Tick} {clock : ℕ → Tick}

/-- The counters and the flags that the writer and the waiting threads go by. -/
structure SameProgress (st st' : State) : Prop where
  added : st'.added = st.added
  written : st'.written = st.written
  closed : st'.closed = st.closed
  gaveUp : st'.gaveUp = st.gaveUp

theorem SameProgress.trans {st₁ st₂ : State} (h : SameProgress st st₁) (h' : SameProgress st₁ st₂) :
    SameProgress st st₂ :=
  ⟨h'.added.trans h.added, h'.written.trans h.written, h'.closed.trans h.closed,
    h'.gaveUp.trans h.gaveUp⟩

theorem endOverflow_same : SameProgress st (st.endOverflow report).1 := by
  unfold endOverflow
  cases st.overflow <;> exact ⟨rfl, rfl, rfl, rfl⟩

theorem endOverflow_lines : (st.endOverflow report).1.lines = st.lines := by
  unfold endOverflow
  cases st.overflow <;> rfl

theorem marker_records : (st.marker sandboxId tick).filterMap RawEvent.record? = [] := by
  unfold marker
  split <;> simp [RawEvent.record?]

/-- The buffer was offered some records: it holds what it held and the lines of those `kept`. -/
structure Adds (json : RawEvent → List UInt8) (droppable : Bool) (rs : List Record) (st st' : State)
    (kept : List RawEvent) : Prop where
  same : SameProgress st st'
  lines : st'.lines = st.lines ++ bytesOf json kept
  records : (kept.filterMap RawEvent.record?).Sublist rs
  all : droppable = false → kept.filterMap RawEvent.record? = rs

theorem Adds.append {st₁ st₂ : State} {kept kept' : List RawEvent} {rs' : List Record}
    (h : Adds json droppable rs st st₁ kept) (h' : Adds json droppable rs' st₁ st₂ kept') :
    Adds json droppable (rs ++ rs') st st₂ (kept ++ kept') where
  same := h.same.trans h'.same
  lines := by rw [h'.lines, h.lines, bytesOf_append, List.append_assoc]
  records := by
    rw [List.filterMap_append]
    exact h.records.append h'.records
  all hd := by rw [List.filterMap_append, h.all hd, h'.all hd]

theorem addRecord_adds (droppable : Bool) (st : State) (report : OverflowReport) (r : Record)
    (tick : Tick) : Adds json droppable [r] st
      (st.addRecord json sandboxId droppable report r tick).1
      (st.addRecord json sandboxId droppable report r tick).2.2 := by
  have hrec : (st.marker sandboxId tick ++ [r.event sandboxId tick]).filterMap RawEvent.record? =
      [r] := by
    rw [List.filterMap_append, marker_records]
    rfl
  unfold addRecord
  simp only
  split
  · next hdrop =>
    -- the lines are cut off where the buffer ended before
    refine ⟨⟨rfl, rfl, rfl, rfl⟩, by simp [bytesOf], by simp, fun hd => ?_⟩
    simp [hd] at hdrop
  · refine ⟨?_, ?_, hrec ▸ .refl _, fun _ => hrec⟩
    · split
      · refine .trans ?_ endOverflow_same
        exact ⟨rfl, rfl, rfl, rfl⟩
      · exact ⟨rfl, rfl, rfl, rfl⟩
    · split
      · exact endOverflow_lines
      · rfl

theorem addRecords_adds (k : ℕ) (st : State) (report : OverflowReport) (rs : List Record) :
    Adds json droppable rs st (st.addRecords json sandboxId droppable clock k report rs).1
      (st.addRecords json sandboxId droppable clock k report rs).2.2 := by
  induction rs generalizing k st report with
  | nil =>
    exact ⟨⟨rfl, rfl, rfl, rfl⟩, by simp [addRecords, bytesOf], by simp [addRecords], fun _ => rfl⟩
  | cons r rs ih => exact (addRecord_adds droppable st report r (clock k)).append (ih (k + 1) _ _)

/-- **A batch is added whole**, or, if its records may be dropped, some of them are. -/
theorem add_adds (st : State) (rs : List Record) (droppable : Bool) (clock : ℕ → Tick) :
    Adds json droppable rs { st with added := st.added + 1 }
      (st.add json sandboxId rs droppable clock).state
      (st.add json sandboxId rs droppable clock).events := by
  have h : Adds json droppable rs st (st.addRecords json sandboxId droppable clock 0 {} rs).1
      (st.addRecords json sandboxId droppable clock 0 {} rs).2.2 := addRecords_adds 0 st {} rs
  exact ⟨⟨congrArg (· + 1) h.same.added, h.same.written, h.same.closed, h.same.gaveUp⟩, h.lines,
    h.records, h.all⟩

end State

/-! ### The calls -/

/-- The call waits for the writer and returns what came of it. -/
def Call.waits : Call → Bool
  | .batch _ _ | .close _ _ => true
  | _ => false

namespace System

variable {C : Type*} [DecidableEq C] {calls : C → Call} {s : System C}

/-- What a call does that adds nothing. -/
structure Passes (calls : C → Call) (c : C) (p : CallAt) : Prop where
  returned : ∀ error, p = .returned error → (calls c).waits = true → error ≠ none
  waiting : ∀ added error, p = .waiting added error → error ≠ none

/-- What a call does that adds a batch. -/
structure Adds (json : RawEvent → List UInt8) (calls : C → Call) (c : C) (s : System C) (st : State)
    (events : List RawEvent) (p : CallAt) : Prop where
  wasOpen : s.state.closed = false
  added : st.added = s.state.added + 1
  written : st.written = s.state.written
  gaveUp : st.gaveUp = s.state.gaveUp
  closed : (calls c).isLast = true → st.closed = true
  lines : st.lines = s.state.lines ++ bytesOf json events
  records : (events.filterMap RawEvent.record?).Sublist (calls c).records
  all : (calls c).isDroppable = false → events.filterMap RawEvent.record? = (calls c).records
  returned : ∀ error, p = .returned error → (calls c).waits = false
  waiting : ∀ added error, p = .waiting added error → added = st.added

omit [DecidableEq C] in
/-- The records of the call are added, and the state changed in no more than flags. -/
theorem Adds.of_add {c : C} {clock : ℕ → Tick} {st : State} {p : CallAt} (added : Added)
    (hadd : s.state.add json sandboxId (calls c).records (calls c).isDroppable clock = added)
    (hopen : s.state.closed = false) (hcount : st.added = added.state.added)
    (hwritten : st.written = added.state.written) (hgave : st.gaveUp = added.state.gaveUp)
    (hlines : st.lines = added.state.lines) (hclosed : (calls c).isLast = true → st.closed = true)
    (hreturned : ∀ error, p = .returned error → (calls c).waits = false)
    (hwaiting : ∀ n error, p = .waiting n error → n = st.added) :
    Adds json calls c s st added.events p := by
  have h : State.Adds json (calls c).isDroppable (calls c).records _ added.state added.events :=
    hadd ▸ State.add_adds s.state (calls c).records (calls c).isDroppable clock
  exact ⟨hopen, hcount.trans h.same.added, hwritten.trans h.same.written, hgave.trans h.same.gaveUp,
    hclosed, hlines.trans h.lines, h.records, h.all, hreturned, hwaiting⟩

/-- **A call adds nothing, or adds its batch to an open ledger.** -/
theorem submit_cases (json : RawEvent → List UInt8) (sandboxId : String) (calls : C → Call)
    (s : System C) (c : C) (clock : ℕ → Tick) :
    (∃ p, Passes calls c p ∧
      s.submit json sandboxId calls c clock = { s with call := Function.update s.call c p }) ∨
    ∃ st events p, Adds json calls c s st events p ∧
      s.submit json sandboxId calls c clock =
        { s with
          state := st
          accepted := s.accepted ++ [(c, events)]
          call := Function.update s.call c p } := by
  have hpass : ∀ error : Error, Passes calls c (.returned (some error)) :=
    fun error => ⟨fun _ h _ => by cases h; simp, nofun⟩
  obtain ⟨added, hadd⟩ : ∃ added,
      s.state.add json sandboxId (calls c).records (calls c).isDroppable clock = added := ⟨_, rfl⟩
  have hquiet : State.SameProgress { added.state with closed := true } added.state.close.1 :=
    State.endOverflow_same
  simp only [submit, hadd]
  cases hclosed : s.state.closed with
  | true =>
    -- a closed ledger takes nothing
    refine .inl ?_
    cases hc : calls c with
    | batch records invalid =>
      cases hinv : invalid with
      | true => exact ⟨_, hpass .invalidData, by simp⟩
      | false => exact ⟨_, hpass .closed, by simp⟩
    | close records invalid =>
      refine ⟨.waiting s.state.added (some .closed), ⟨nofun, ?_⟩, by simp⟩
      intro n error h
      cases h
      simp
    | captured records | drop =>
      refine ⟨.returned none, ⟨?_, nofun⟩, by simp⟩
      intro error _ hw
      simp [hc, Call.waits] at hw
  | false =>
    cases hc : calls c with
    | batch records invalid =>
      cases hinv : invalid with
      | true => exact .inl ⟨_, hpass .invalidData, by simp⟩
      | false =>
        refine .inr ⟨{ added.state with urgent := true }, added.events,
          .waiting added.state.added none,
          .of_add added hadd hclosed rfl rfl rfl rfl ?_ ?_ ?_, by simp⟩
        · simp [hc, Call.isLast]
        · exact fun error h => nomatch h
        · intro n error h
          cases h
          rfl
    | close records invalid =>
      refine .inr ⟨added.state.close.1, added.events,
        .waiting added.state.close.1.added (if invalid then some .invalidData else none),
        .of_add added hadd hclosed hquiet.added hquiet.written hquiet.gaveUp State.endOverflow_lines
          (fun _ => hquiet.closed) ?_ ?_, by simp⟩
      · exact fun error h => nomatch h
      · intro n error h
        cases h
        rfl
    | captured records =>
      by_cases hempty : records = []
      · refine .inl ⟨.returned none, ⟨?_, nofun⟩, by simp [hempty]⟩
        intro error _ hw
        simp [hc, Call.waits] at hw
      · refine .inr ⟨added.state, added.events, .returned none,
          .of_add added hadd hclosed rfl rfl rfl rfl ?_ ?_ ?_, by simp [hempty]⟩
        · simp [hc, Call.isLast]
        · simp [hc, Call.waits]
        · exact fun n error h => nomatch h
    | drop =>
      have hsame : State.SameProgress { s.state with closed := true } s.state.close.1 :=
        State.endOverflow_same
      refine .inr ⟨{ s.state.close.1 with added := s.state.close.1.added + 1 }, [],
        .waiting (s.state.close.1.added + 1) none, ?_, by simp⟩
      refine ⟨hclosed, congrArg (· + 1) hsame.added, hsame.written, hsame.gaveUp,
        fun _ => hsame.closed, ?_, by simp, fun _ => by simp [hc, Call.records], ?_, ?_⟩
      · exact State.endOverflow_lines.trans (by simp [bytesOf])
      · exact fun error h => nomatch h
      · intro n error h
        cases h
        rfl

end System

end EventLedger
