/-
The event ledger keeps every accepted line, whole and in order.

The bytes of the accepted records are at every moment the written part of the file, then the bytes
that the writer has taken, then the shared buffer.  A write that fails changes the file only past
`offset`, and the next try starts there again.

* `System.Inv` — the invariant, kept by every step (`Step.inv`);
* `System.ledger_integrity` — what holds in every state reached: where the lines are, what a batch
  or a close that returned without an error may rely on, and that no line follows the closing batch.
-/
import HviVmm.LabelledSteps
import HviVmm.LedgerAdds

open LabelledSteps
open scoped QueueIndex

namespace HostFile

variable {bytes buf : List UInt8} {base n : ℕ}

theorem take_splice_of_le (hbase : base ≤ bytes.length) (hn : n ≤ base) :
    (splice bytes base buf).take n = bytes.take n := by
  simp only [splice, List.append_assoc]
  rw [List.take_append_of_le_length (by simp; omega), List.take_take, Nat.min_eq_left hn]

/-- A write that starts within the file puts its bytes after those before it. -/
theorem take_splice_end (buf : List UInt8) (hbase : base ≤ bytes.length) :
    (splice bytes base buf).take (base + buf.length) = bytes.take base ++ buf := by
  have hgap : base - bytes.length = 0 := by omega
  have hlen : (bytes.take base ++ buf).length = base + buf.length := by simp [hbase]
  simp only [splice, hgap, List.replicate_zero, List.append_nil]
  rw [List.take_append_of_le_length (by omega), List.take_of_length_le (by omega)]

theorem length_splice_ge (buf : List UInt8) (hbase : base ≤ bytes.length) :
    base + buf.length ≤ (splice bytes base buf).length := by
  simp only [splice, List.length_append, List.length_take, List.length_drop, List.length_replicate]
  omega

end HostFile

namespace EventLedger

variable {json : RawEvent → List UInt8} {sandboxId : String}

/-! ### The invariant -/

namespace System

variable {C : Type*} [DecidableEq C] {calls : C → Call} {s s' : System C} {a : Act C}
variable {k added : ℕ} {c : C} {p : CallAt}

/-- The bytes of the first `k` batches. -/
def firstBytes (json : RawEvent → List UInt8) (s : System C) (k : ℕ) : List UInt8 :=
  bytesOf json ((s.accepted.take k).flatMap (·.2))

/-- The bytes of all batches. -/
def acceptedBytes (json : RawEvent → List UInt8) (s : System C) : List UInt8 :=
  bytesOf json (s.accepted.flatMap (·.2))

/-- What holds while the writer is at this place. -/
def WriterOk (json : RawEvent → List UInt8) (s : System C) : WriterAt → Prop
  | .writing added written =>
    s.state.written ≤ added ∧ added ≤ s.accepted.length ∧
      s.firstBytes json added = s.file.take s.offset ++ s.taken ∧
      written ≤ s.taken.length ∧ s.offset + written ≤ s.file.length ∧
      s.file.take (s.offset + written) = s.file.take s.offset ++ s.taken.take written
  | .wrote added =>
    s.state.written ≤ added ∧ added ≤ s.accepted.length ∧
      s.firstBytes json added = s.file.take s.offset ∧ s.taken = []
  | .leaving => s.state.closed = true ∧ s.acceptedBytes json = s.file.take s.offset
  | _ => True

/-- What holds while a call is at this place. -/
def CallOk (calls : C → Call) (s : System C) (c : C) : CallAt → Prop
  | .idle => True
  | .waiting added error =>
    error = none → ∃ i events, i < added ∧ s.accepted[i]? = some (c, events)
  | .returned error =>
    (calls c).waits = true → error = none →
      ∃ i events, i < s.state.written ∧ s.accepted[i]? = some (c, events)

/-- What holds of the batches and of the calls that added them. -/
structure BatchesOk (calls : C → Call) (s : System C) : Prop where
  added : s.state.added = s.accepted.length
  written : s.state.written ≤ s.accepted.length
  records : ∀ c events, (c, events) ∈ s.accepted →
    (events.filterMap RawEvent.record?).Sublist (calls c).records ∧
      ((calls c).isDroppable = false → events.filterMap RawEvent.record? = (calls c).records)
  last : ∀ i c events, s.accepted[i]? = some (c, events) → (calls c).isLast = true →
    s.state.closed = true ∧ i + 1 = s.accepted.length
  calls : ∀ c, CallOk calls s c (s.call c)

/-- Where the bytes are. -/
structure BytesOk (json : RawEvent → List UInt8) (s : System C) : Prop where
  offset : s.offset ≤ s.file.length
  whole : s.state.gaveUp = false →
    s.file.take s.offset ++ s.taken ++ s.state.lines = s.acceptedBytes json
  gaveUp : s.state.gaveUp = true → s.writer = .gaveUp
  written : s.firstBytes json s.state.written <+: s.file.take s.offset
  writer : s.WriterOk json s.writer

def Inv (json : RawEvent → List UInt8) (calls : C → Call) (s : System C) : Prop :=
  s.BatchesOk calls ∧ s.BytesOk json

/-! ### Steps -/

omit [DecidableEq C] in
theorem firstBytes_of_take (hk : k ≤ s.accepted.length) (hpre : s.accepted <+: s'.accepted) :
    s'.firstBytes json k = s.firstBytes json k := by
  obtain ⟨more, hmore⟩ := hpre
  rw [firstBytes, firstBytes, ← hmore, List.take_append_of_le_length hk]

omit [DecidableEq C] in
theorem firstBytes_length : s.firstBytes json s.accepted.length = s.acceptedBytes json := by
  rw [firstBytes, acceptedBytes, List.take_length]

omit [DecidableEq C] in
theorem firstBytes_mono {k' : ℕ} (h : k ≤ k') : s.firstBytes json k <+: s.firstBytes json k' := by
  obtain ⟨more, hmore⟩ : s.accepted.take k <+: s.accepted.take k' := List.take_prefix_take_left h
  refine ⟨bytesOf json (more.flatMap (·.2)), ?_⟩
  rw [firstBytes, firstBytes, ← hmore, List.flatMap_append, bytesOf_append]

omit [DecidableEq C] in
theorem CallOk.mono (h : CallOk calls s c p) (hpre : s.accepted <+: s'.accepted)
    (hwritten : s.state.written ≤ s'.state.written) : CallOk calls s' c p := by
  have hget : ∀ {i : ℕ} {events}, s.accepted[i]? = some (c, events) →
      s'.accepted[i]? = some (c, events) := by
    intro i events hi
    obtain ⟨more, hmore⟩ := hpre
    rw [← hmore, List.getElem?_append_left (List.getElem?_eq_some_iff.mp hi).1]
    exact hi
  cases p with
  | idle => trivial
  | waiting added error =>
    intro herr
    obtain ⟨i, events, hi, hacc⟩ := h herr
    exact ⟨i, events, hi, hget hacc⟩
  | returned error =>
    intro hw herr
    obtain ⟨i, events, hi, hacc⟩ := h hw herr
    exact ⟨i, events, hi.trans_le hwritten, hget hacc⟩

theorem callOk_update (hp : CallOk calls s' c p) (hold : ∀ d, CallOk calls s' d (s.call d))
    (d : C) : CallOk calls s' d (Function.update s.call c p d) := by
  by_cases hd : d = c
  · subst hd
    rw [Function.update_self]
    exact hp
  · rw [Function.update_of_ne hd]
    exact hold d

theorem Adds.batchesOk {st : State} {events : List RawEvent} (h : Adds json calls c s st events p)
    (hs : s.BatchesOk calls) :
    BatchesOk calls
      { s with
        state := st
        accepted := s.accepted ++ [(c, events)]
        call := Function.update s.call c p } where
  added := by simp [h.added, hs.added]
  written := by
    have := hs.written
    simp only [h.written, List.length_append]
    omega
  records d evs hmem := by
    rcases List.mem_append.mp hmem with hold | hnew
    · exact hs.records d evs hold
    · obtain ⟨rfl, rfl⟩ : d = c ∧ evs = events := by simpa using hnew
      exact ⟨h.records, h.all⟩
  last i d evs hi hlast := by
    by_cases hold : i < s.accepted.length
    · -- a closing batch before this one would have closed the ledger
      rw [List.getElem?_append_left hold] at hi
      exact absurd (hs.last i d evs hi hlast).1 (by simp [h.wasOpen])
    · rw [List.getElem?_append_right (by omega)] at hi
      obtain ⟨hi0, hd⟩ : i = s.accepted.length ∧ (c, events) = (d, evs) := by
        have := List.getElem?_eq_some_iff.mp hi
        obtain ⟨hlt, heq⟩ := this
        simp only [List.length_cons, List.length_nil] at hlt
        exact ⟨by omega, by simpa using heq⟩
      cases hd
      exact ⟨h.closed hlast, by simp [hi0]⟩
  calls d := by
    have hpre : s.accepted <+: s.accepted ++ [(c, events)] := List.prefix_append _ _
    refine callOk_update ?_ (fun d => (hs.calls d).mono hpre h.written.ge) d
    cases hp : p with
    | idle => trivial
    | waiting added error =>
      intro _
      refine ⟨s.accepted.length, events, ?_, by simp⟩
      have := h.waiting added error hp
      have := h.added
      have := hs.added
      omega
    | returned error =>
      intro hw
      exact absurd hw (by simp [h.returned error hp])

theorem Adds.bytesOk {st : State} {events : List RawEvent} (h : Adds json calls c s st events p)
    (hbatches : s.BatchesOk calls) (hs : s.BytesOk json) :
    BytesOk json
      { s with
        state := st
        accepted := s.accepted ++ [(c, events)]
        call := Function.update s.call c p } := by
  have hpre : s.accepted <+: s.accepted ++ [(c, events)] := List.prefix_append _ _
  refine ⟨hs.offset, fun hgave => ?_, fun hgave => hs.gaveUp (h.gaveUp.symm.trans hgave), ?_, ?_⟩
  · have := hs.whole (h.gaveUp.symm.trans hgave)
    simp only [h.lines, acceptedBytes, List.flatMap_append, bytesOf_append] at this ⊢
    rw [← List.append_assoc, this]
    simp
  · show firstBytes json _ st.written <+: _
    rw [h.written, firstBytes_of_take hbatches.written hpre]
    exact hs.written
  · have hw := hs.writer
    show WriterOk json _ s.writer
    cases hat : s.writer with
    | writing added written =>
      rw [hat] at hw
      obtain ⟨hmono, hle, hfirst, hrest⟩ := hw
      refine ⟨h.written.trans_le hmono, hle.trans hpre.length_le, ?_, hrest⟩
      rw [firstBytes_of_take hle hpre]
      exact hfirst
    | wrote added =>
      rw [hat] at hw
      obtain ⟨hmono, hle, hfirst, hrest⟩ := hw
      refine ⟨h.written.trans_le hmono, hle.trans hpre.length_le, ?_, hrest⟩
      rw [firstBytes_of_take hle hpre]
      exact hfirst
    | leaving =>
      rw [hat] at hw
      exact absurd hw.1 (by simp [h.wasOpen])
    | top | idle | finished | gaveUp => trivial

theorem Passes.inv (h : Passes calls c p) (hs : s.Inv json calls) :
    Inv json calls { s with call := Function.update s.call c p } := by
  refine ⟨⟨hs.1.added, hs.1.written, hs.1.records, hs.1.last, fun d => ?_⟩, hs.2.offset, hs.2.whole,
    hs.2.gaveUp, hs.2.written, hs.2.writer⟩
  refine callOk_update ?_ hs.1.calls d
  cases hp : p with
  | idle => trivial
  | waiting added error => exact fun herr => absurd herr (h.waiting added error hp)
  | returned error => exact fun hw herr => absurd herr (h.returned error hp hw)

/-- A wait that ends without an error has found the batch written. -/
theorem endWait_inv (hs : s.Inv json calls) {error : Option Error}
    (hcall : s.call c = .waiting added error) :
    Inv json calls
      { s with
        call := Function.update s.call c (.returned ((s.state.waitResult added).or error)) } := by
  refine ⟨⟨hs.1.added, hs.1.written, hs.1.records, hs.1.last, fun d => ?_⟩, hs.2.offset, hs.2.whole,
    hs.2.gaveUp, hs.2.written, hs.2.writer⟩
  refine callOk_update ?_ hs.1.calls d
  intro _ herr
  obtain ⟨hres, herr⟩ := Option.or_eq_none_iff.mp herr
  have hwritten : added ≤ s.state.written := by
    by_contra hlt
    simp only [State.waitResult, hlt, if_false] at hres
    split at hres <;> cases hres
  have hok := hs.1.calls c
  rw [hcall] at hok
  obtain ⟨i, events, hi, hacc⟩ := hok herr
  exact ⟨i, events, hi.trans_le hwritten, hacc⟩

omit [DecidableEq C] in
/-- A step of the writer keeps what holds of the batches. -/
theorem BatchesOk.of_writer (h : s.BatchesOk calls) (haccepted : s'.accepted = s.accepted)
    (hcall : s'.call = s.call) (hadded : s'.state.added = s.state.added)
    (hclosed : s'.state.closed = s.state.closed) (hmono : s.state.written ≤ s'.state.written)
    (hwritten : s'.state.written ≤ s.accepted.length) : s'.BatchesOk calls where
  added := by rw [hadded, haccepted, h.added]
  written := by rwa [haccepted]
  records := by rw [haccepted]; exact h.records
  last := by rw [haccepted, hclosed]; exact h.last
  calls c := by
    rw [hcall]
    exact (h.calls c).mono (haccepted ▸ List.prefix_rfl) hmono

omit [DecidableEq C] in
/-- The writer has not given up where it is still at work. -/
theorem BytesOk.not_gaveUp (h : s.BytesOk json) (hat : s.writer ≠ .gaveUp) :
    s.state.gaveUp = false := by
  cases hgave : s.state.gaveUp with
  | false => rfl
  | true => exact absurd (h.gaveUp hgave) hat

theorem take_inv (hs : s.Inv json calls) {expired : Bool} (hen : (Act.take expired).Enabled s) :
    Inv json calls ((Act.take expired).effect json sandboxId calls s) := by
  obtain ⟨hbatches, hbytes⟩ := hs
  have hat : s.writer ≠ .gaveUp := by
    rcases hen with ⟨hat, -⟩ | ⟨hat, -⟩ <;> simp [hat]
  have hgave := hbytes.not_gaveUp hat
  have hwhole := hbytes.whole hgave
  simp only [Act.effect]
  split
  · next hend =>
    simp only [Bool.and_eq_true, List.isEmpty_iff] at hend
    obtain ⟨⟨hclosed, hlines⟩, htaken⟩ := hend
    refine ⟨hbatches.of_writer rfl rfl rfl rfl le_rfl hbatches.written, hbytes.offset,
      fun _ => hwhole, fun h => ?_, hbytes.written, hclosed, ?_⟩
    · exact absurd h (by simp [hgave])
    · rw [hlines, htaken, List.append_nil, List.append_nil] at hwhole
      exact hwhole.symm
  · split
    · exact ⟨hbatches.of_writer rfl rfl rfl rfl le_rfl hbatches.written, hbytes.offset, nofun,
        fun _ => rfl, hbytes.written, trivial⟩
    · have hall : s.file.take s.offset ++ (s.taken ++ s.state.lines) = s.acceptedBytes json := by
        rw [← List.append_assoc, hwhole]
      refine ⟨hbatches.of_writer rfl rfl rfl rfl le_rfl hbatches.written, hbytes.offset,
        fun _ => (List.append_nil _).trans hall, fun h => ?_, hbytes.written,
        hbatches.written.trans hbatches.added.ge, hbatches.added.le, ?_, Nat.zero_le _,
          hbytes.offset,
        ?_⟩
      · exact absurd h (by simp [hgave])
      · show s.firstBytes json s.state.added = _
        rw [hbatches.added, firstBytes_length]
        exact hall.symm
      · simp

omit [DecidableEq C] in
theorem writeSome_inv (hs : s.Inv json calls) {written : ℕ}
    (hat : s.writer = .writing added written) (hk : written + k ≤ s.taken.length) :
    Inv json calls
      { s with
        writer := .writing added (written + k)
        file := HostFile.splice s.file (s.offset + written) ((s.taken.drop written).take k) } := by
  obtain ⟨hbatches, hbytes⟩ := hs
  have hgave := hbytes.not_gaveUp (by simp [hat])
  have hw := hbytes.writer
  rw [hat] at hw
  obtain ⟨hmono, hle, hfirst, hwle, hoff, hfile⟩ := hw
  have hlen : ((s.taken.drop written).take k).length = k := by simp; omega
  have hkept : (HostFile.splice s.file (s.offset + written) ((s.taken.drop written).take k)).take
      s.offset = s.file.take s.offset := HostFile.take_splice_of_le hoff (by omega)
  have hend := HostFile.take_splice_end ((s.taken.drop written).take k) hoff
  have hge := HostFile.length_splice_ge ((s.taken.drop written).take k) hoff
  rw [hlen] at hend hge
  refine ⟨hbatches.of_writer rfl rfl rfl rfl le_rfl hbatches.written, ?_, fun _ => ?_, fun h => ?_,
    ?_, hmono, hle, ?_, hk, ?_, ?_⟩
  · exact (show s.offset ≤ s.offset + written + k by omega).trans hge
  · show List.take s.offset _ ++ s.taken ++ s.state.lines = _
    rw [hkept]
    exact hbytes.whole hgave
  · exact absurd h (by simp [hgave])
  · show _ <+: List.take s.offset _
    rw [hkept]
    exact hbytes.written
  · show _ = List.take s.offset _ ++ s.taken
    rw [hkept]
    exact hfirst
  · exact (show s.offset + (written + k) ≤ s.offset + written + k by omega).trans hge
  · show List.take (s.offset + (written + k)) _ = List.take s.offset _ ++ s.taken.take (written + k)
    rw [hkept, ← Nat.add_assoc, hend, hfile, List.append_assoc, List.take_add]

omit [DecidableEq C] in
theorem endWrite_inv (hs : s.Inv json calls) (hat : s.writer = .writing added s.taken.length) :
    Inv json calls
      { s with
        writer := .wrote added
        failing := false
        offset := s.offset + s.taken.length
        taken := [] } := by
  obtain ⟨hbatches, hbytes⟩ := hs
  have hgave := hbytes.not_gaveUp (by simp [hat])
  have hw := hbytes.writer
  rw [hat] at hw
  obtain ⟨hmono, hle, hfirst, -, hoff, hfile⟩ := hw
  rw [List.take_length] at hfile
  refine ⟨hbatches.of_writer rfl rfl rfl rfl le_rfl hbatches.written, hoff, fun _ => ?_, fun h =>
    ?_, ?_, hmono, hle, ?_, rfl⟩
  · show List.take (s.offset + s.taken.length) s.file ++ [] ++ s.state.lines = _
    rw [hfile, List.append_nil]
    exact hbytes.whole hgave
  · exact absurd h (by simp [hgave])
  · show _ <+: List.take (s.offset + s.taken.length) s.file
    rw [hfile]
    exact hbytes.written.trans (List.prefix_append _ _)
  · show _ = List.take (s.offset + s.taken.length) s.file
    rw [hfile]
    exact hfirst

theorem settle_inv (hs : s.Inv json calls) (hen : Act.settle.Enabled s) :
    Inv json calls (Act.settle.effect json sandboxId calls s) := by
  obtain ⟨hbatches, hbytes⟩ := hs
  obtain ⟨added, hat⟩ := hen
  have hgave := hbytes.not_gaveUp (by simp [hat])
  have hw := hbytes.writer
  rw [hat] at hw
  obtain ⟨hmono, hle, hfirst, htaken⟩ := hw
  have hwhole := hbytes.whole hgave
  simp only [Act.effect, hat]
  split
  · next hend =>
    simp only [Bool.and_eq_true, List.isEmpty_iff] at hend
    obtain ⟨hclosed, hlines⟩ := hend
    refine ⟨hbatches.of_writer rfl rfl rfl rfl le_rfl hbatches.written, hbytes.offset,
      fun _ => hwhole, fun h => ?_, hbytes.written, hclosed, ?_⟩
    · exact absurd h (by simp [hgave])
    · rw [hlines, htaken, List.append_nil, List.append_nil] at hwhole
      exact hwhole.symm
  · refine ⟨hbatches.of_writer rfl rfl rfl rfl hmono hle, hbytes.offset, fun _ => hwhole, fun h =>
      ?_, ?_, trivial⟩
    · exact absurd h (by simp [hgave])
    · show s.firstBytes json added <+: _
      exact hfirst ▸ List.prefix_rfl

theorem finish_inv (hs : s.Inv json calls) (hen : Act.finish.Enabled s) :
    Inv json calls (Act.finish.effect json sandboxId calls s) := by
  obtain ⟨hbatches, hbytes⟩ := hs
  have hat : s.writer = .leaving := hen
  have hgave := hbytes.not_gaveUp (by simp [hat])
  have hw := hbytes.writer
  rw [hat] at hw
  refine ⟨hbatches.of_writer rfl rfl rfl rfl (hbatches.written.trans hbatches.added.ge)
    hbatches.added.le, hbytes.offset, hbytes.whole, fun h => ?_, ?_, trivial⟩
  · exact absurd (show s.state.gaveUp = true from h) (by simp [hgave])
  · show s.firstBytes json s.state.added <+: _
    rw [hbatches.added, firstBytes_length, hw.2]
    exact List.prefix_rfl

theorem Step.inv (hs : s.Inv json calls) (hstep : Step json sandboxId calls a s s') :
    s'.Inv json calls := by
  obtain ⟨hen, rfl⟩ := hstep
  cases a with
  | submit c clock =>
    rcases submit_cases json sandboxId calls s c clock with
      ⟨p, hpass, heq⟩ | ⟨st, events, p, hadds, heq⟩
    · show Inv json calls (s.submit json sandboxId calls c clock)
      rw [heq]
      exact hpass.inv hs
    · show Inv json calls (s.submit json sandboxId calls c clock)
      rw [heq]
      exact ⟨hadds.batchesOk hs.1, hadds.bytesOk hs.1 hs.2⟩
  | endWait c =>
    obtain ⟨added, error, hcall⟩ := hen
    simp only [Act.effect, hcall]
    exact endWait_inv hs hcall
  | goIdle =>
    refine ⟨hs.1.of_writer rfl rfl rfl rfl le_rfl hs.1.written, hs.2.offset, hs.2.whole,
      fun h => ?_, hs.2.written, trivial⟩
    exact absurd ((hs.2.gaveUp h).symm.trans hen.1) (by simp)
  | take expired => exact take_inv hs hen
  | writeSome k =>
    obtain ⟨added, written, hat, hk⟩ := hen
    simp only [Act.effect, hat]
    exact writeSome_inv hs hat hk
  | failWrite =>
    obtain ⟨added, written, hat⟩ := hen
    refine ⟨hs.1.of_writer rfl rfl rfl rfl le_rfl hs.1.written, hs.2.offset, hs.2.whole,
      fun h => ?_, hs.2.written, trivial⟩
    exact absurd ((hs.2.gaveUp h).symm.trans hat) (by simp)
  | endWrite =>
    obtain ⟨added, hat⟩ := hen
    simp only [Act.effect, hat]
    exact endWrite_inv hs hat
  | settle => exact settle_inv hs hen
  | finish => exact finish_inv hs hen

omit [DecidableEq C] in
theorem init_inv : Inv json calls ({} : System C) := by
  refine ⟨⟨rfl, le_rfl, by simp, by simp, fun _ => trivial⟩, le_rfl, fun _ => rfl, nofun, ?_,
    trivial⟩
  exact List.prefix_rfl

/-! ### The ledger -/

/-- **The ledger keeps every accepted line, whole and in order.**  In every state reached:

* as long as the writer has not given up, the first `offset` bytes of the file, the bytes that the
  writer has taken and the buffer are together the lines of the accepted records, batch after batch;
* a batch's accepted records are the records of its call, or some of them, in their order, if they
  may be dropped;
* a batch or a close that returned without an error has its lines and all lines accepted before in
  the first `offset` bytes of the file;
* no batch follows the closing one. -/
theorem ledger_integrity (h : Steps (Step json sandboxId calls) (fun _ => True) {} s) :
    (s.state.gaveUp = false → s.offset ≤ s.file.length ∧
      s.file.take s.offset ++ s.taken ++ s.state.lines =
        bytesOf json (s.accepted.flatMap (·.2))) ∧
    (∀ c events, (c, events) ∈ s.accepted →
      (events.filterMap RawEvent.record?).Sublist (calls c).records ∧
        ((calls c).isDroppable = false → events.filterMap RawEvent.record? = (calls c).records)) ∧
    (∀ c, (calls c).waits = true → s.call c = .returned none →
      ∃ i events, s.accepted[i]? = some (c, events) ∧
        events.filterMap RawEvent.record? = (calls c).records ∧
        bytesOf json ((s.accepted.take (i + 1)).flatMap (·.2)) <+: s.file.take s.offset) ∧
    ∀ i c events, s.accepted[i]? = some (c, events) → (calls c).isLast = true →
      i + 1 = s.accepted.length := by
  obtain ⟨hbatches, hbytes⟩ : s.Inv json calls := h.inv (fun _ hstep hs => hstep.inv hs) init_inv
  refine ⟨fun hgave => ⟨hbytes.offset, hbytes.whole hgave⟩, hbatches.records, ?_,
    fun i c events hi hlast => (hbatches.last i c events hi hlast).2⟩
  intro c hwaits hcall
  have hok := hbatches.calls c
  rw [hcall] at hok
  obtain ⟨i, events, hi, hacc⟩ := hok hwaits rfl
  have hdrop : (calls c).isDroppable = false := by
    cases hc : calls c <;> simp_all [Call.waits, Call.isDroppable]
  refine ⟨i, events, hacc, (hbatches.records c events (List.mem_of_getElem? hacc)).2 hdrop, ?_⟩
  exact (firstBytes_mono hi).trans hbytes.written

/-- A batch whose first write fails after one byte, and a captured record that comes in before the
next try. -/
def twoCalls : Fin 2 → Call
  | 0 => .batch [⟨"vmm", "vmm.start", [123, 125]⟩] false
  | 1 => .captured [⟨"boundary", "block", [123, 125]⟩]

def retried : List (Act (Fin 2)) :=
  [.submit 0 fun _ => ⟨0, 0, 0⟩, .take false, .writeSome 1, .failWrite, .submit 1 fun _ =>
    ⟨1, 1, 1⟩, .take false, .writeSome 2, .writeSome 4, .endWrite, .settle, .endWait 0]

theorem ledger_integrity_retried :
    ∃ s : System (Fin 2), Steps (Step (fun _ => [123, 125]) "sandbox" twoCalls) (fun _ => True) {}
      s ∧ s.call 0 = .returned none ∧ s.offset = 6 ∧
      ∃ i events, s.accepted[i]? = some (0, events) ∧
        events.filterMap RawEvent.record? = (twoCalls 0).records ∧
        bytesOf (fun _ => [123, 125]) ((s.accepted.take (i + 1)).flatMap (·.2)) <+:
          s.file.take s.offset := by
  have hgoes : Goes (fun s a => a.Enabled s) (Act.effect (fun _ => [123, 125]) "sandbox" twoCalls)
      retried {} :=
    ⟨rfl, .inl ⟨rfl, .inr rfl⟩, ⟨1, 0, rfl, by decide⟩, ⟨1, 1, rfl⟩, rfl, .inl ⟨rfl, .inl rfl⟩,
      ⟨2, 0, rfl, by decide⟩, ⟨2, 2, rfl, by decide⟩, ⟨2, rfl⟩, ⟨2, rfl⟩, ⟨1, none, rfl⟩, trivial⟩
  exact ⟨_, hgoes.steps, rfl, rfl, (ledger_integrity hgoes.steps).2.2.1 0 rfl rfl⟩

end System

end EventLedger
