/-
Histories of connections, and the rule for invariants about them.

The history of a port is the list of what happened to its connections.  `life` is
the part since the last registration, so the history of the connection that has
the port now.

* `SessionInv` — what has to be shown of the steps of one connection for a fact
  about every connection and its history, and for a fact about every event and
  what came before it;
* `SessionInv.run` — both then hold in every run.
-/
import HviVmm.VsockSteps

/-! ### Bytes in a history -/

namespace Event

@[simp] def passedBytes : Event → List UInt8
  | passed data => data
  | _ => []

@[simp] def queuedBytes : Event → List UInt8
  | queued data => data
  | _ => []

@[simp] def framedBytes : Event → List UInt8
  | framed data => data
  | _ => []

@[simp] def clearedBytes : Event → List UInt8
  | cleared data => data
  | _ => []

@[simp] def appendedBytes : Event → List UInt8
  | appended body => body
  | _ => []

@[simp] def tookBytes : Event → List UInt8
  | took data _ => data
  | _ => []

@[simp] def droppedBytes : Event → List UInt8
  | dropped data => data
  | _ => []

@[simp] def discardedBytes : Event → List UInt8
  | discarded body => body
  | _ => []

end Event

/-- The bytes of one kind in a history, in order. -/
def tally (f : Event → List UInt8) (h : List Event) : List UInt8 := h.flatMap f

section Tally

variable (f : Event → List UInt8)

@[simp] theorem tally_nil : tally f [] = [] := rfl

@[simp] theorem tally_cons (e : Event) (h : List Event) : tally f (e :: h) = f e ++ tally f h :=
  List.flatMap_cons

@[simp] theorem tally_append (h h' : List Event) : tally f (h ++ h') = tally f h ++ tally f h' :=
  List.flatMap_append

end Tally

/-! ### Lives -/

/-- The events since the last registration. -/
def life (h : List Event) : List Event :=
  h.foldl (fun acc e => if e = .registered then [] else acc ++ [e]) []

theorem life_concat (h : List Event) (e : Event) :
    life (h ++ [e]) = if e = .registered then [] else life h ++ [e] := by
  simp [life]

theorem life_append {h evs : List Event} (hevs : .registered ∉ evs) :
    life (h ++ evs) = life h ++ evs := by
  induction evs generalizing h with
  | nil => simp
  | cons e evs ih =>
    rw [List.mem_cons, not_or] at hevs
    have happ : h ++ e :: evs = (h ++ [e]) ++ evs := by simp
    rw [happ, ih hevs.2, life_concat, if_neg (Ne.symm hevs.1)]
    simp

/-! ### Events and what came before them -/

/-- `J` holds of each of `evs` and what came before it, when `h` came before all. -/
def Marks {α : Type} (J : List α → α → Prop) : List α → List α → Prop
  | _, [] => True
  | h, e :: evs => J h e ∧ Marks J (h ++ [e]) evs

theorem marks_append {α : Type} {J : List α → α → Prop} {h evs evs' : List α} :
    Marks J h (evs ++ evs') ↔ Marks J h evs ∧ Marks J (h ++ evs) evs' := by
  induction evs generalizing h with
  | nil => simp [Marks]
  | cons e evs ih => simp [Marks, ih, and_assoc]

theorem Marks.at {α : Type} {J : List α → α → Prop} {h₁ h₂ : List α} {e : α}
    (h : Marks J [] (h₁ ++ e :: h₂)) : J h₁ e := by
  have := (marks_append.mp h).2
  simpa using this.1

/-- `Q` holds of the history as it is after an event. -/
def After (Q : List Event → Prop) (_ : UInt32) (h : List Event) (e : Event) : Prop :=
  Q (h ++ [e])

/-- A history marked so satisfies `Q` at every moment. -/
theorem Marks.take {Q : List Event → Prop} {p : UInt32} {h : List Event}
    (hm : Marks (After Q p) [] h) (hnil : Q []) (k : ℕ) : Q (h.take k) := by
  induction k with
  | zero => exact hnil
  | succ k ih =>
    by_cases hk : k < h.length
    · have hcut : h = h.take k ++ h[k] :: h.drop (k + 1) := by
        rw [List.getElem_cons_drop, List.take_append_drop]
      rw [hcut] at hm
      rw [List.take_succ_eq_append_getElem hk]
      exact hm.at
    · rw [List.take_of_length_le (by omega)]
      rwa [List.take_of_length_le (by omega)] at ih

namespace VirtioVsock

/-! ### Invariants of connections -/

/-- What has to be shown for `I` to hold of every connection and its life, and `J`
of every event in a life and what came before it. -/
structure SessionInv (I : UInt32 → Conn → List Event → Prop)
    (J : UInt32 → List Event → Event → Prop) : Prop where
  fresh : ∀ p stream, I p { stream } []
  fill : ∀ {p c c' pkts evs h}, FillStep p c c' pkts evs → I p c h →
    I p c' (h ++ evs) ∧ Marks (J p) h evs
  host : ∀ {p c c' pkts evs h}, HostStep p c c' pkts evs → I p c h →
    I p c' (h ++ evs) ∧ Marks (J p) h evs
  arrive : ∀ {p hdr body c c' pkts evs h}, admits hdr = true → hdr.op ≠ opRequest →
    hdr.dstPort = p → body.length ≤ hdr.len.toNat →
    ArriveStep p hdr body (c.takeCredit hdr) c' pkts evs → I p c h →
    I p c' (h ++ .handled hdr :: evs) ∧ Marks (J p) h (.handled hdr :: evs)
  overrun : ∀ {p hdr c h}, I p c h → Marks (J p) h [.handled hdr, .overrun]
  ended : ∀ {p c h}, c.finished = true → I p c h → J p h (.ended c)

/-- Every connection satisfies `I` with its life, and every event of a life `J` with
what came before it. -/
structure Sessions (I : UInt32 → Conn → List Event → Prop)
    (J : UInt32 → List Event → Event → Prop) (s : VirtioVsock) : Prop where
  conns : ∀ p c, s.conn p = some c → I p c (life (s.history p))
  past : ∀ p, Marks (J p) [] (life (s.history p))

/-- `J` says of a connection that `settle` removes that it was finished and satisfied
`I`. -/
def EndedWith (I : UInt32 → Conn → List Event → Prop) (p : UInt32) (h : List Event) (e : Event) :
    Prop :=
  ∀ c, e = .ended c → c.finished = true ∧ I p c h

/-- Events that end no connection are marked with nothing. -/
theorem marks_endedWith {I : UInt32 → Conn → List Event → Prop} {p : UInt32} {h evs : List Event}
    (hevs : ∀ e ∈ evs, ∀ c, e ≠ .ended c) : Marks (EndedWith I p) h evs := by
  induction evs generalizing h with
  | nil => trivial
  | cons e evs ih =>
    rw [List.forall_mem_cons] at hevs
    exact ⟨fun c heq => absurd heq (hevs.1 c), ih hevs.2⟩

/-- An invariant that every step keeps, taking the credit of a header being one, also
holds of a connection when it is removed. -/
theorem SessionInv.of_kept {I : UInt32 → Conn → List Event → Prop}
    (fresh : ∀ p stream, I p { stream } [])
    (fill : ∀ {p c c' pkts evs h}, FillStep p c c' pkts evs → I p c h → I p c' (h ++ evs))
    (host : ∀ {p c c' pkts evs h}, HostStep p c c' pkts evs → I p c h → I p c' (h ++ evs))
    (credit : ∀ {p c h} hdr, I p c h → I p (c.takeCredit hdr) (h ++ [.handled hdr]))
    (arrive : ∀ {p hdr body c c' pkts evs h}, ArriveStep p hdr body c c' pkts evs → I p c h →
      I p c' (h ++ evs)) : SessionInv I (EndedWith I) where
  fresh := fresh
  fill hstep hI := ⟨fill hstep hI, marks_endedWith (by cases hstep <;> simp)⟩
  host hstep hI := ⟨host hstep hI, marks_endedWith (by cases hstep <;> simp)⟩
  arrive {_ hdr _ _ _ _ evs h} _ _ _ _ hstep hI := by
    have happ : h ++ .handled hdr :: evs = (h ++ [.handled hdr]) ++ evs := by simp
    refine ⟨happ ▸ arrive hstep (credit hdr hI), marks_endedWith ?_⟩
    cases hstep with
    | shut =>
      unfold Conn.shutClears
      split <;> simp
    | _ => simp
  overrun _ := marks_endedWith (by simp)
  ended hfin hI c heq := by
    cases heq
    exact ⟨hfin, hI⟩

/-! ### Steps record no registration -/

section Registered

variable {p : UInt32} {c c' : Conn} {pkts : List Packet} {evs : List Event}

theorem fillStep_registered (h : FillStep p c c' pkts evs) : .registered ∉ evs := by
  cases h <;> simp

theorem hostStep_registered (h : HostStep p c c' pkts evs) : .registered ∉ evs := by
  cases h <;> simp

theorem arriveStep_registered {hdr : Hdr} {body : List UInt8}
    (h : ArriveStep p hdr body c c' pkts evs) : .registered ∉ evs := by
  cases h with
  | shut =>
    unfold Conn.shutClears
    split <;> simp
  | _ => simp

end Registered

/-! ### The rule -/

section Rule

variable {I : UInt32 → Conn → List Event → Prop}
  {J : UInt32 → List Event → Event → Prop} {s s' : VirtioVsock}
variable {p : UInt32} {evs : List Event}

/-- The life of a port after events that register nothing. -/
theorem life_record (hevs : .registered ∉ evs) :
    life (record s.history p evs p) = life (s.history p) ++ evs := by
  rw [record_self, life_append hevs]

/-- The marks of all lives after events on one port. -/
theorem Sessions.past_record (hs : Sessions I J s) (hevs : .registered ∉ evs)
    (hmarks : Marks (J p) (life (s.history p)) evs) (q : UInt32) :
    Marks (J q) [] (life (record s.history p evs q)) := by
  by_cases hq : q = p
  · subst hq
    rw [life_record hevs]
    exact marks_append.mpr ⟨hs.past q, by simpa using hmarks⟩
  · rw [record_ne _ _ hq]
    exact hs.past q

/-- A change to one connection that keeps `I` and marks its events. -/
theorem Sessions.commit (hs : Sessions I J s) {c' : Conn} {pkts : List Packet}
    (hevs : .registered ∉ evs)
    (h : I p c' (life (s.history p) ++ evs) ∧ Marks (J p) (life (s.history p)) evs) :
    Sessions I J (s.commit p c' pkts evs) where
  conns q d hd := by
    show I q d (life (record s.history p evs q))
    by_cases hq : q = p
    · subst hq
      rw [conn_commit_self, Option.some.injEq] at hd
      subst hd
      rw [life_record hevs]
      exact h.1
    · rw [conn_commit_ne _ _ _ _ hq] at hd
      rw [record_ne _ _ hq]
      exact hs.conns q d hd
  past := hs.past_record hevs h.2

theorem Sessions.remove (hs : Sessions I J s) {pkts : List Packet} (hevs : .registered ∉ evs)
    (h : Marks (J p) (life (s.history p)) evs) : Sessions I J (s.remove p pkts evs) where
  conns q d hd := by
    show I q d (life (record s.history p evs q))
    by_cases hq : q = p
    · subst hq
      rw [conn_remove_self] at hd
      cases hd
    · rw [conn_remove_ne _ _ _ hq] at hd
      rw [record_ne _ _ hq]
      exact hs.conns q d hd
  past := hs.past_record hevs h

/-- **One step** keeps a session invariant. -/
theorem SessionInv.step (hI : SessionInv I J) {l : Label} (h : Step l s s')
    (hs : Sessions I J s) : Sessions I J s' := by
  cases h with
  | host hc hstep =>
    exact hs.commit (hostStep_registered hstep) (hI.host hstep (hs.conns _ _ hc))
  | @arrive _ _ hdr _ _ _ _ _ hadm hop hc hstep =>
    have hevs := arriveStep_registered hstep
    have hevs' := List.not_mem_cons_of_ne_of_not_mem
      (show Event.registered ≠ .handled hdr by simp) hevs
    exact hs.commit hevs' (hI.arrive hadm hop rfl (List.length_take_le ..) hstep (hs.conns _ _ hc))
  | overrun _ _ _ hc => exact hs.remove (by simp) (hI.overrun (hs.conns _ _ hc))
  | fill hc hstep =>
    exact hs.commit (fillStep_registered hstep) (hI.fill hstep (hs.conns _ _ hc))
  | ended hc hfin =>
    exact hs.remove (by simp) ⟨hI.ended hfin (hs.conns _ _ hc), trivial⟩
  | refuse | deliver | lose | quiet => exact ⟨hs.conns, hs.past⟩
  | @register _ stream hn =>
    rw [addConn, if_pos hn]
    have hlife : ∀ q, q = s.nextPort →
        life (VirtioVsock.record s.history s.nextPort [.registered] q) = [] := by
      rintro q rfl
      rw [record_self, life_concat, if_pos rfl]
    refine ⟨fun q d hd => ?_, fun q => ?_⟩
    · show I q d (life (VirtioVsock.record s.history s.nextPort [.registered] q))
      by_cases hq : q = s.nextPort
      · rw [hlife q hq]
        have hnew : AList.lookup q (s.conns.insert s.nextPort { stream }) = some d := hd
        subst hq
        rw [AList.lookup_insert, Option.some.injEq] at hnew
        subst hnew
        exact hI.fresh _ _
      · rw [record_ne _ _ hq]
        refine hs.conns q d ?_
        have hold : AList.lookup q (s.conns.insert s.nextPort { stream }) = some d := hd
        rwa [AList.lookup_insert_ne hq] at hold
    · show Marks (J q) [] (life (VirtioVsock.record s.history s.nextPort [.registered] q))
      by_cases hq : q = s.nextPort
      · rw [hlife q hq]
        exact trivial
      · rw [record_ne _ _ hq]
        exact hs.past q
  | reset => exact ⟨fun q d hd => (by cases hd), hs.past⟩
  | dropConns => exact ⟨fun q d hd => (by cases hd), hs.past⟩

theorem sessions_fresh (mem : GuestRam) : Sessions I J (VirtioVsock.fresh mem) :=
  ⟨fun _ _ h => (nomatch h), fun _ => trivial⟩

theorem SessionInv.steps (hI : SessionInv I J) {A : Label → Prop} (h : Steps A s s')
    (hs : Sessions I J s) : Sessions I J s' :=
  h.inv (fun _ hstep hs => hI.step hstep hs) hs

/-- **Every run** keeps a session invariant. -/
theorem SessionInv.run (hI : SessionInv I J) (mem : GuestRam) (calls : List Call) :
    Sessions I J ((VirtioVsock.fresh mem).run calls) :=
  hI.steps (run_steps _ calls) (sessions_fresh mem)

end Rule

end VirtioVsock
