/-
Rules for what every call keeps of the connections.

A call changes one connection and then settles, frames and delivers.  So a fact about
every connection may fail on the port a call is for, and only until that connection
is stored again.

* `Each`, `EachBut` — a fact about all connections, and about all but one;
* `Steps.fill_each` — what one settling or framing step keeps, filling keeps;
* `HandlerInv` — what has to be shown of the handlers of guest packets;
* `HandlerInv.mmioWrite` — it then holds after every register write.
-/
import HviVmm.VsockSteps

namespace VirtioVsock

/-! ### All connections -/

/-- Every connection satisfies `P`. -/
def Each (P : Conn → Prop) (s : VirtioVsock) : Prop := ∀ p c, s.conn p = some c → P c

/-- Every connection but the one on `q` satisfies `P`. -/
def EachBut (q : UInt32) (P : Conn → Prop) (s : VirtioVsock) : Prop :=
  ∀ p c, p ≠ q → s.conn p = some c → P c

section Each

variable {P : Conn → Prop} {s s' : VirtioVsock} {p q : UInt32} {c : Conn} {pkts : List Packet}
  {evs : List Event}

theorem Each.but (h : Each P s) (q : UInt32) : EachBut q P s := fun p c _ hc => h p c hc

theorem EachBut.commit (h : EachBut p P s) (c : Conn) (pkts : List Packet) (evs : List Event) :
    EachBut p P (s.commit p c pkts evs) := by
  intro q d hq hd
  rw [conn_commit_ne _ _ _ _ hq] at hd
  exact h q d hq hd

theorem EachBut.each (h : EachBut p P s) (hp : ∀ c, s.conn p = some c → P c) : Each P s := by
  intro q d hd
  by_cases hq : q = p
  · subst hq
    exact hp d hd
  · exact h q d hq hd

theorem EachBut.commit_each (h : EachBut p P s) (hc : P c) : Each P (s.commit p c pkts evs) := by
  refine (h.commit c pkts evs).each fun d hd => ?_
  rw [conn_commit_self, Option.some.injEq] at hd
  rwa [← hd]

theorem EachBut.remove (h : EachBut p P s) : Each P (s.remove p pkts evs) := by
  intro q d hd
  by_cases hq : q = p
  · subst hq
    rw [conn_remove_self] at hd
    cases hd
  · rw [conn_remove_ne _ _ _ hq] at hd
    exact h q d hq hd

/-- What settling and framing keep of one connection, filling keeps of all. -/
theorem Steps.fill_each (hP : ∀ {p c c' pkts evs}, FillStep p c c' pkts evs → P c → P c')
    (h : Steps IsFill s s') (hs : Each P s) : Each P s' := by
  refine h.inv (fun {s s' l} hl hstep hs => ?_) hs
  cases hl
  cases hstep with
  | fill hc hfill => exact (hs.but _).commit_each (hP hfill (hs _ _ hc))
  | ended hc => exact (hs.but _).remove
  | deliver | lose | quiet => exact hs

theorem Steps.fill_eachBut (hP : ∀ {p c c' pkts evs}, FillStep p c c' pkts evs → P c → P c')
    (h : Steps IsFill s s') (hs : EachBut q P s) : EachBut q P s' := by
  refine h.inv (P := EachBut q P) (fun {s s' l} hl hstep hs => ?_) hs
  cases hl
  cases hstep with
  | @fill _ p c c' _ _ hc hfill =>
    intro r d hr hd
    by_cases hp : r = p
    · subst hp
      rw [conn_commit_self, Option.some.injEq] at hd
      exact hd ▸ hP hfill (hs r c hr hc)
    · rw [conn_commit_ne _ _ _ _ hp] at hd
      exact hs r d hr hd
  | @ended _ p c hc =>
    intro r d hr hd
    by_cases hp : r = p
    · subst hp
      rw [conn_remove_self] at hd
      cases hd
    · rw [conn_remove_ne _ _ _ hp] at hd
      exact hs r d hr hd
  | deliver | lose | quiet => exact hs

theorem Each.addConn (h : Each P s) (stream : HostStream) (hnew : P { stream }) :
    Each P (s.addConn stream).2 := by
  unfold VirtioVsock.addConn
  split
  · intro p c hc
    have hlook : AList.lookup p (s.conns.insert s.nextPort { stream }) = some c := hc
    by_cases hp : p = s.nextPort
    · subst hp
      rw [AList.lookup_insert, Option.some.injEq] at hlook
      exact hlook ▸ hnew
    · rw [AList.lookup_insert_ne hp] at hlook
      exact h p c hlook
  · exact h

end Each

/-! ### Guest packets -/

/-- What has to be shown of the handlers of guest packets for `P`, which speaks of the
connections only, to hold after every register write. -/
structure HandlerInv (P : VirtioVsock → Prop) : Prop where
  conns : ∀ {s s'}, P s → s'.conns = s.conns → P s'
  none : ∀ {s}, s.conns = ∅ → P s
  fill : ∀ {s}, P s → P s.fillRx
  credit : ∀ {s} hdr, P s → P (s.takeCredit hdr)
  accept : ∀ {s} p, P s → P (s.accept p)
  relay : ∀ {s} p body, P s → P (s.relay p body)
  shut : ∀ {s} hdr, P s → P (s.guestShut hdr)
  answer : ∀ {s} p, P s → P (s.answerCredit p)

namespace HandlerInv

variable {P : VirtioVsock → Prop} {s : VirtioVsock}

theorem dispatch (hP : HandlerInv P) (h : P s) (hdr : Hdr) (pkt : Packet) :
    P (s.dispatch hdr pkt) := by
  unfold VirtioVsock.dispatch
  split
  · exact hP.fill (hP.accept _ h)
  · split
    · exact hP.relay _ _ h
    · split
      · exact hP.fill (hP.shut hdr h)
      · split
        · exact hP.fill (hP.conns h rfl)
        · split
          · exact hP.fill (hP.answer _ h)
          · exact hP.fill h

theorem handlePkt (hP : HandlerInv P) (h : P s) (pkt : Packet) : P (s.handlePkt pkt) := by
  unfold VirtioVsock.handlePkt
  split
  · exact h
  · next hdr _ =>
    split
    · split
      · have hasked : P { s with asked := s.asked ++ [hdr] } := hP.conns h rfl
        exact hP.dispatch hasked _ _
      · exact hP.dispatch (hP.credit _ h) _ _
    · exact h

theorem serveTx (hP : HandlerInv P) (n : ℕ) (last : UInt16) (h : P s) :
    P (VirtioVsock.serveTx n last s).2 := by
  induction n generalizing last s with
  | zero => exact h
  | succ n ih =>
    rw [VirtioVsock.serveTx]
    split
    · exact h
    · split
      · exact h
      · next head _ =>
        cases s.readTx head with
        | none => exact ih _ (hP.conns h rfl)
        | some pkt => exact ih _ (hP.conns (hP.handlePkt h pkt) rfl)

/-- **A register write** keeps what the handlers keep. -/
theorem mmioWrite (hP : HandlerInv P) (h : P s) (w : UInt64 × UInt64) : P (s.mmioWrite w) := by
  unfold VirtioVsock.mmioWrite
  simp only
  split
  · exact h
  · split
    · unfold processTx
      split
      · split
        · exact h
        · exact hP.conns (hP.serveTx _ _ h) rfl
      · exact h
    · split
      · exact hP.fill h
      · exact h
  · split
    · exact hP.none rfl
    · exact hP.conns h rfl

end HandlerInv

end VirtioVsock
