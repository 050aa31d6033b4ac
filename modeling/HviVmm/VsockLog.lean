/-
Logs of ports, and the rule for invariants about them.

The log of a port is its history with the packets that were queued for its
connections in their places.  An invariant of logs speaks of the connection on a
port, if there is one, and of the log so far.

* `LogInv` — what has to be shown of the steps of one connection;
* `LogInv.run` — the invariant then holds of every port in every run.
-/
import HviVmm.VsockHistory

/-! ### Acts -/

namespace Act

def event? : Act → Option Event
  | did e => some e
  | queued _ => none

/-- The header of a packet that was queued. -/
def hdr? : Act → Option Hdr
  | did _ => none
  | queued pkt => Hdr.parse pkt

end Act

/-- The events of a log. -/
def events (L : List Act) : List Event := L.filterMap Act.event?

/-- The headers of the packets of a log. -/
def sentHdrs (L : List Act) : List Hdr := L.filterMap Act.hdr?

/-- The acts since the last registration. -/
def lifeLog (L : List Act) : List Act :=
  L.foldl (fun acc a => if a = .did .registered then [] else acc ++ [a]) []

section Acts

variable {L L' : List Act} {evs : List Event} {pkts : List Packet}

@[simp] theorem events_append : events (L ++ L') = events L ++ events L' :=
  List.filterMap_append

@[simp] theorem events_noted : events (noted evs pkts) = evs := by
  have hevs : (evs.map Act.did).filterMap Act.event? = evs := by
    rw [List.filterMap_map]
    exact List.filterMap_some
  have hpkts : (pkts.map Act.queued).filterMap Act.event? = [] := by
    rw [List.filterMap_map]
    exact List.filterMap_eq_nil_iff.mpr fun _ _ => rfl
  rw [events, noted, List.filterMap_append, hevs, hpkts, List.append_nil]

@[simp] theorem sentHdrs_append : sentHdrs (L ++ L') = sentHdrs L ++ sentHdrs L' :=
  List.filterMap_append

@[simp] theorem sentHdrs_noted : sentHdrs (noted evs pkts) = pkts.filterMap Hdr.parse := by
  have hevs : (evs.map Act.did).filterMap Act.hdr? = [] := by
    rw [List.filterMap_map]
    exact List.filterMap_eq_nil_iff.mpr fun _ _ => rfl
  rw [sentHdrs, noted, List.filterMap_append, hevs, List.nil_append, List.filterMap_map]
  rfl

theorem lifeLog_concat (a : Act) :
    lifeLog (L ++ [a]) = if a = .did .registered then [] else lifeLog L ++ [a] := by
  simp [lifeLog]

theorem lifeLog_append (hreg : .did .registered ∉ L') : lifeLog (L ++ L') = lifeLog L ++ L' := by
  induction L' generalizing L with
  | nil => simp
  | cons a L' ih =>
    rw [List.mem_cons, not_or] at hreg
    have happ : L ++ a :: L' = (L ++ [a]) ++ L' := by simp
    rw [happ, ih hreg.2, lifeLog_concat, if_neg (Ne.symm hreg.1)]
    simp

theorem registered_notMem_noted (hevs : .registered ∉ evs) : .did .registered ∉ noted evs pkts := by
  intro hmem
  rcases List.mem_append.mp hmem with h | h
  · obtain ⟨e, he, heq⟩ := List.mem_map.mp h
    cases heq
    exact hevs he
  · obtain ⟨pkt, -, heq⟩ := List.mem_map.mp h
    cases heq

end Acts

namespace VirtioVsock

/-! ### Invariants of logs -/

/-- What has to be shown for `I` to hold of every port, the connection on it and its
log. -/
structure LogInv (I : UInt32 → Option Conn → List Act → Prop) : Prop where
  fresh : ∀ p, I p none []
  register : ∀ {p o L} stream, I p o L → I p (some { stream }) (L ++ [.did .registered])
  wipe : ∀ {p o L}, I p o L → I p none L
  fill : ∀ {p c c' pkts evs L}, FillStep p c c' pkts evs → I p (some c) L →
    I p (some c') (L ++ noted evs pkts)
  host : ∀ {p c c' pkts evs L}, HostStep p c c' pkts evs → I p (some c) L →
    I p (some c') (L ++ noted evs pkts)
  arrive : ∀ {p hdr body c c' pkts evs L}, hdr.op ≠ opRequest →
    ArriveStep p hdr body (c.takeCredit hdr) c' pkts evs → I p (some c) L →
    I p (some c') (L ++ noted (.handled hdr :: evs) pkts)
  overrun : ∀ {p hdr c rx L}, hdr.op = opRw → c.state = .connected → c.guestSendShut = false →
    c.hostGone = false → I p (some c) L →
    I p none (L ++ noted [.handled hdr, .overrun] [controlPkt p opRst 0 rx])
  ended : ∀ {p c L}, c.finished = true → I p (some c) L →
    I p none (L ++ noted [.ended c] (c.farewell p))

/-- Every port satisfies `I`. -/
def Logs (I : UInt32 → Option Conn → List Act → Prop) (s : VirtioVsock) : Prop :=
  ∀ p, I p (s.conn p) (s.log p)

section Rule

variable {I : UInt32 → Option Conn → List Act → Prop} {s s' : VirtioVsock}

theorem Logs.commit (hs : Logs I s) {p : UInt32} {c : Conn} {pkts : List Packet}
    {evs : List Event} (h : I p (some c) (s.log p ++ noted evs pkts)) :
    Logs I (s.commit p c pkts evs) := by
  intro q
  show I q _ (note s.log p (noted evs pkts) q)
  by_cases hq : q = p
  · subst hq
    rw [conn_commit_self, note_self]
    exact h
  · rw [conn_commit_ne _ _ _ _ hq, note_ne _ hq]
    exact hs q

theorem Logs.remove (hs : Logs I s) {p : UInt32} {pkts : List Packet} {evs : List Event}
    (h : I p none (s.log p ++ noted evs pkts)) : Logs I (s.remove p pkts evs) := by
  intro q
  show I q _ (note s.log p (noted evs pkts) q)
  by_cases hq : q = p
  · subst hq
    rw [conn_remove_self, note_self]
    exact h
  · rw [conn_remove_ne _ _ _ hq, note_ne _ hq]
    exact hs q

/-- **One step** keeps an invariant of logs. -/
theorem LogInv.step (hI : LogInv I) {l : Label} (h : Step l s s') (hs : Logs I s) : Logs I s' := by
  have hat : ∀ {p c}, s.conn p = some c → I p (some c) (s.log p) := fun {p _} hc => hc ▸ hs p
  cases h with
  | host hc hstep => exact hs.commit (hI.host hstep (hat hc))
  | arrive _ _ hop hc hstep => exact hs.commit (hI.arrive hop hstep (hat hc))
  | @overrun _ _ hdr c₀ _ _ _ hop hc hcredit hstate hsend hgone =>
    obtain ⟨buf, fwd, heq⟩ := c₀.takeCredit_eq hdr
    rw [hcredit, heq] at hstate hsend hgone
    exact hs.remove (hI.overrun (c := c₀) hop hstate hsend hgone (hat hc))
  | fill hc hstep => exact hs.commit (hI.fill hstep (hat hc))
  | ended hc hfin => exact hs.remove (hI.ended hfin (hat hc))
  | refuse | deliver | lose | quiet => exact hs
  | @register _ stream hn =>
    rw [addConn, if_pos hn]
    intro q
    show I q (AList.lookup q (s.conns.insert s.nextPort { stream }))
      (note s.log s.nextPort [.did .registered] q)
    by_cases hq : q = s.nextPort
    · subst hq
      rw [AList.lookup_insert, note_self]
      exact hI.register stream (hs _)
    · rw [AList.lookup_insert_ne hq, note_ne _ hq]
      exact hs q
  | reset => exact fun q => hI.wipe (hs q)
  | dropConns => exact fun q => hI.wipe (hs q)

/-- **Every run** keeps an invariant of logs. -/
theorem LogInv.run (hI : LogInv I) (mem : GuestRam) (calls : List Call) :
    Logs I ((VirtioVsock.fresh mem).run calls) :=
  (run_steps _ calls).inv (fun _ hstep hs => hI.step hstep hs) fun p => hI.fresh p

end Rule

end VirtioVsock
