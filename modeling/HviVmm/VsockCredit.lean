/-
The credit the device gives the guest.

Every packet of a connection carries the count of guest bytes given back so far.
Packets wait in `pending` and may be cut, but they keep their order, so the guest
reads counts that never go down.

* `Grants`, `IsCount` — what a counter in a header stands for;
* `Credit` — the counters in the packets of a port, delivered and pending, stand for
  counts of bytes given back, in order;
* `Credit.step` — every step keeps this;
* `Credit.clean` — a guest that sent no more than these counts allow is not reset.
-/
import HviVmm.VsockAccount
import HviVmm.VsockStream

open VirtioVsock

/-! ### The counters in packets -/

/-- A packet that refuses a guest's `OP_REQUEST`. -/
def VirtioVsock.isRefusal (h : Hdr) : Bool := h.op == opRst && h.bufAlloc == 0

/-- The headers in `pkts` that carry credit for `p`: all that come from its port, but
not an `OP_RST` that refuses a request of the guest. -/
def creditHdrs (p : UInt32) (pkts : List Packet) : List Hdr :=
  pkts.filterMap fun pkt => (Hdr.parse pkt).filter fun h => h.srcPort == p && !isRefusal h

/-- `h` advertises the device's buffer and `n` bytes given back. -/
def Grants (h : Hdr) (n : ℕ) : Prop := h.bufAlloc = ourBufAlloc ∧ h.fwdCnt = UInt32.ofNat n

/-- At some moment of `h`, `n` bytes had been given back. -/
def IsCount (n : ℕ) (h : List Event) : Prop := ∃ k ≤ h.length, n = credited (h.take k)

section Counters

variable {p q fwd : UInt32} {pkt : Packet} {pkts : List Packet} {n : ℕ} {h : List Event}

@[simp] theorem creditHdrs_append (p : UInt32) (pkts pkts' : List Packet) :
    creditHdrs p (pkts ++ pkts') = creditHdrs p pkts ++ creditHdrs p pkts' :=
  List.filterMap_append

theorem creditHdrs_cons (p : UInt32) (pkt : Packet) (pkts : List Packet) :
    creditHdrs p (pkt :: pkts) = creditHdrs p [pkt] ++ creditHdrs p pkts :=
  creditHdrs_append p [pkt] pkts

theorem creditHdrs_bytes (p : UInt32) (f : Frame) : creditHdrs p [f.bytes] =
    if f.hdr.srcPort == p && !isRefusal f.hdr then [f.hdr] else [] := by
  simp only [creditHdrs, List.filterMap_cons, f.parse_bytes, List.filterMap_nil]
  split <;> simp_all

theorem creditHdrs_refusalPkt (p : UInt32) (h : Hdr) : creditHdrs p [refusalPkt h] = [] := by
  have hframe : refusalPkt h = (Frame.control _ rfl).bytes := (Frame.bytes_control _ rfl).symm
  rw [hframe, creditHdrs_bytes]
  simp [Frame.control, isRefusal]

/-- A packet of another connection carries nothing for `p`. -/
theorem creditHdrs_sent_ne (hs : Sent q fwd pkt) (hq : q ≠ p) : creditHdrs p [pkt] = [] := by
  obtain ⟨f, rfl, hsrc, -⟩ := hs
  rw [creditHdrs_bytes, hsrc]
  simp [hq]

/-- A packet of a connection grants what its counter says. -/
theorem grants_sent (hs : Sent p (UInt32.ofNat n) pkt) :
    List.Forall₂ Grants (creditHdrs p [pkt]) [n] := by
  obtain ⟨f, rfl, hsrc, hbuf, hfwd⟩ := hs
  have href : isRefusal f.hdr = false := by
    simp [isRefusal, hbuf, ourBufAlloc]
  rw [creditHdrs_bytes, hsrc, href]
  simpa using ⟨hbuf, hfwd⟩

/-- Packets of one connection, queued at once, grant the same to `p`. -/
theorem grants_all (hs : ∀ pkt ∈ pkts, ∃ fwd, Sent q fwd pkt ∧ (q = p → fwd = UInt32.ofNat n)) :
    ∃ k, List.Forall₂ Grants (creditHdrs p pkts) (List.replicate k n) := by
  induction pkts with
  | nil => exact ⟨0, .nil⟩
  | cons pkt pkts ih =>
    rw [List.forall_mem_cons] at hs
    obtain ⟨⟨fwd, hsent, hfwd⟩, hrest⟩ := hs
    obtain ⟨k, hk⟩ := ih hrest
    rw [creditHdrs_cons]
    by_cases hq : q = p
    · subst hq
      rw [hfwd rfl] at hsent
      exact ⟨k + 1, List.rel_append (grants_sent hsent) hk⟩
    · rw [creditHdrs_sent_ne hsent hq]
      exact ⟨k, hk⟩

theorem IsCount.le (hn : IsCount n h) : n ≤ credited h := by
  obtain ⟨k, -, rfl⟩ := hn
  exact credited_mono (List.take_prefix k h)

theorem isCount_self (h : List Event) : IsCount (credited h) h :=
  ⟨h.length, Nat.le_refl _, by rw [List.take_length]⟩

theorem IsCount.mono (hn : IsCount n h) {h' : List Event} (hle : h <+: h') : IsCount n h' := by
  obtain ⟨k, hk, rfl⟩ := hn
  obtain ⟨evs, rfl⟩ := hle
  refine ⟨k, ?_, by rw [List.take_append_of_le_length hk]⟩
  rw [List.length_append]
  omega

end Counters

namespace VirtioVsock

/-! ### The device's side -/

/-- The counters for `p` in the packets delivered and pending stand for counts `del`
and `pen` of bytes that had been given back, in order. -/
structure Credit (p : UInt32) (s : VirtioVsock) (del pen : List ℕ) : Prop where
  ports : Ports s
  accounts : Sessions (fun _ c h => Account c h) (After Solvent) s
  delivered : List.Forall₂ Grants (creditHdrs p s.delivered) del
  pending : List.Forall₂ Grants (creditHdrs p s.pending) pen
  sorted : (del ++ pen).Pairwise (· ≤ ·)
  counts : ∀ n ∈ del ++ pen, IsCount n (s.history p)

section Credit

variable {s s' : VirtioVsock} {p q : UInt32} {del pen : List ℕ} {c : Conn} {pkts : List Packet}
  {evs : List Event}
variable {l : Label}

theorem credited_life (hports : Ports s) (p : UInt32) :
    credited (s.history p) = credited (life (s.history p)) := by
  rw [credited, credited, (hports.once p).tally_life rfl]

/-- A connection's counter stands for what it gave back. -/
theorem rxCnt_eq (hports : Ports s)
    (hacc : Sessions (fun _ c h => Account c h) (After Solvent) s) (hc : s.conn p = some c) :
    c.rxCnt = UInt32.ofNat (credited (s.history p)) := by
  rw [credited_life hports, (hacc.conns p c hc).rx]

theorem Step.history_le (h : Step l s s') (q : UInt32) : s.history q <+: s'.history q := by
  have hrec : ∀ p evs, s.history q <+: record s.history p evs q := fun p evs => by
    by_cases hq : q = p
    · subst hq
      rw [record_self]
      exact List.prefix_append _ _
    · exact ⟨[], by rw [List.append_nil, record_ne _ _ hq]⟩
  cases h with
  | host | arrive | overrun | fill | ended => exact hrec _ _
  | register hn =>
    rw [addConn, if_pos hn]
    exact hrec _ _
  | refuse | deliver | lose | quiet | reset | dropConns => exact List.prefix_rfl

theorem Step.delivered_le (h : Step l s s') : s.delivered <+: s'.delivered := by
  cases h with
  | deliver => exact List.prefix_append _ _
  | @register _ stream hn =>
    have hkeep : (s.addConn stream).2.delivered = s.delivered := by rw [addConn, if_pos hn]
    exact ⟨[], by rw [List.append_nil, hkeep]⟩
  | _ => exact List.prefix_rfl

/-- A connection queues packets with its counter. -/
theorem Credit.queue (h : Credit p s del pen) (hports : Ports s')
    (hacc : Sessions (fun _ c h => Account c h) (After Solvent) s')
    (hdel : s'.delivered = s.delivered) (hpend : s'.pending = s.pending ++ pkts)
    (hhist : s.history p <+: s'.history p)
    (hpkts : ∀ pkt ∈ pkts, ∃ fwd, Sent q fwd pkt ∧
      (q = p → fwd = UInt32.ofNat (credited (s'.history p)))) :
    ∃ pen', Credit p s' del pen' := by
  obtain ⟨k, hk⟩ := grants_all hpkts
  have hcounts : ∀ n ∈ del ++ pen, IsCount n (s'.history p) := fun n hn =>
    (h.counts n hn).mono hhist
  refine ⟨pen ++ List.replicate k (credited (s'.history p)), hports, hacc, ?_, ?_, ?_, ?_⟩
  · rw [hdel]
    exact h.delivered
  · rw [hpend, creditHdrs_append]
    exact List.rel_append h.pending hk
  · rw [← List.append_assoc, List.pairwise_append]
    refine ⟨h.sorted, List.pairwise_replicate.mpr (.inr (Nat.le_refl _)), fun n hn m hm => ?_⟩
    rw [List.eq_of_mem_replicate hm]
    exact (hcounts n hn).le
  · rw [← List.append_assoc]
    intro n hn
    rcases List.mem_append.mp hn with hn | hn
    · exact hcounts n hn
    · rw [List.eq_of_mem_replicate hn]
      exact isCount_self _

/-- Both parts of a cut packet carry the credit that it carries. -/
theorem creditHdrs_withBody (p : UInt32) (f : Frame) {body : List UInt8}
    (hbody : body.length ≤ f.body.length) : creditHdrs p [(f.withBody body hbody).bytes] =
      if f.hdr.srcPort == p && !isRefusal f.hdr then
        [{ f.hdr with len := UInt32.ofNat body.length }] else [] :=
  creditHdrs_bytes p (f.withBody body hbody)

/-- A packet that is cut grants its count twice. -/
theorem grants_cutFor (del : List ℕ) {cap : ℕ} (hcap : hdrLen ≤ cap) {pkt : Packet}
    (hpkt : s.Owned pkt)
    {rest : List Packet} (hpen : List.Forall₂ Grants (creditHdrs p (pkt :: rest)) pen) :
    ∃ a b, List.Forall₂ Grants (creditHdrs p [(cutFor cap pkt rest).1]) a ∧
      List.Forall₂ Grants (creditHdrs p (cutFor cap pkt rest).2) b ∧ (∀ n ∈ a ++ b, n ∈ pen) ∧
      ((del ++ pen).Pairwise (· ≤ ·) → (del ++ (a ++ b)).Pairwise (· ≤ ·)) := by
  obtain ⟨f, rfl, -⟩ := hpkt
  rw [creditHdrs_cons, creditHdrs_bytes] at hpen
  unfold cutFor
  split
  · next hlt =>
    simp only [f.splitPending_bytes hcap hlt]
    rw [creditHdrs_cons p _ rest]
    simp only [creditHdrs_withBody]
    split at hpen
    · next hfor =>
      simp only [if_pos hfor]
      cases hpen with
      | @cons _ n _ pen' hgrant hrest =>
        refine ⟨[n], n :: pen', .cons hgrant .nil, .cons hgrant hrest, by simp, fun hsort => ?_⟩
        rw [List.pairwise_append] at hsort ⊢
        simp only [List.singleton_append, List.pairwise_cons, List.mem_cons] at hsort ⊢
        grind
    · next hfor =>
      simp only [if_neg hfor]
      exact ⟨[], pen, .nil, hpen, fun _ => id, id⟩
  · simp only [creditHdrs_bytes]
    split at hpen
    · next hfor =>
      simp only [if_pos hfor]
      cases hpen with
      | @cons _ n _ pen' hgrant hrest =>
        exact ⟨[n], pen', .cons hgrant .nil, hrest, fun _ => id, id⟩
    · next hfor =>
      simp only [if_neg hfor]
      exact ⟨[], pen, .nil, hpen, fun _ => id, id⟩

theorem credited_record {h : UInt32 → List Event} (hevs : tally Event.creditedBytes evs = []) :
    credited (record h q evs p) = credited (h p) := by
  rw [credited, credited, tally_record hevs]

/-- A connection that is offered for the first time has given nothing back. -/
theorem credited_offered (hports : Ports s)
    (hacc : Sessions (fun _ c h => Account c h) (After Solvent) s) (hc : s.conn p = some c)
    (honce : (s.history p ++ [Event.offered]).count .offered ≤ 1) :
    credited (s.history p ++ [.offered]) = 0 := by
  have hnot : .offered ∉ s.history p := by
    rw [List.count_append, List.count_singleton_self] at honce
    exact List.count_eq_zero.mp (by omega)
  have hlife : .offered ∉ life (s.history p) := by
    obtain ⟨pre, -, heq⟩ := hports.once p
    rw [heq] at hnot
    exact fun hmem => hnot (List.mem_append_right _ hmem)
  rw [credited_append, credited_life hports, ((hacc.conns p c hc).unoffered hlife).2.2]
  rfl

/-- **One step** keeps the counters in order, as long as no port comes back and the
connection is offered once. -/
theorem Credit.step (hstep : Step l s s') (hreg : s'.registrations ≤ 2 ^ 32)
    (honce : (s'.history p).count .offered ≤ 1) (h : Credit p s del pen) :
    ∃ del' pen', Credit p s' del' pen' ∧ del <+: del' := by
  have hports := h.ports.step hstep hreg
  have hacc := sessionInv_account.step hstep h.accounts
  have hhist := hstep.history_le p
  -- a step that delivers nothing, and whose packets carry the connection's counter
  have hqueue : ∀ q {pkts}, s'.delivered = s.delivered → s'.pending = s.pending ++ pkts →
      (∀ pkt ∈ pkts, ∃ fwd, Sent q fwd pkt ∧
        (q = p → fwd = UInt32.ofNat (credited (s'.history p)))) →
      ∃ del' pen', Credit p s' del' pen' ∧ del <+: del' := fun q _ hdel hpend hpkts => by
    obtain ⟨pen', h'⟩ := h.queue hports hacc hdel hpend hhist hpkts
    exact ⟨del, pen', h', List.prefix_rfl⟩
  have hrx := fun {c} (hc : s'.conn p = some c) => rxCnt_eq hports hacc hc
  cases hstep with
  | @host _ q c c' pkts evs hc hhost =>
    refine hqueue q rfl rfl fun pkt hpkt => ?_
    rcases hostStep_sent hhost pkt hpkt with hs | ⟨rfl, rfl⟩
    · refine ⟨_, hs, fun hq => ?_⟩
      subst hq
      exact hrx (conn_commit_self ..)
    · refine ⟨0, sent_requestPkt _, fun hq => ?_⟩
      subst hq
      have hzero := credited_offered h.ports h.accounts hc (by simpa [commit] using honce)
      show 0 = UInt32.ofNat (credited (record s.history q [.offered] q))
      rw [record_self, hzero]
      rfl
  | arrive _ _ _ hc harr =>
    refine hqueue _ rfl rfl fun pkt hpkt => ⟨_, arriveStep_sent harr pkt hpkt, fun hq => ?_⟩
    subst hq
    exact hrx (conn_commit_self ..)
  | fill hc hfill =>
    refine hqueue _ rfl rfl fun pkt hpkt => ⟨_, (fillStep_sent hfill).2 pkt hpkt, fun hq => ?_⟩
    subst hq
    rw [← (fillStep_sent hfill).1]
    exact hrx (conn_commit_self ..)
  | @overrun _ _ hdr c₀ _ _ _ _ hc hcredit =>
    refine hqueue hdr.dstPort rfl rfl fun pkt hpkt => ?_
    rw [List.mem_singleton] at hpkt
    refine ⟨_, hpkt ▸ sent_controlPkt .., fun hq => ?_⟩
    subst hq
    obtain ⟨buf, fwd, heq⟩ := c₀.takeCredit_eq hdr
    rw [hcredit, heq]
    exact (rxCnt_eq h.ports h.accounts hc).trans (congrArg _ (credited_record rfl).symm)
  | ended hc =>
    refine hqueue _ rfl rfl fun pkt hpkt => ⟨_, farewell_sent _ _ pkt hpkt, fun hq => ?_⟩
    subst hq
    exact (rxCnt_eq h.ports h.accounts hc).trans (congrArg _ (credited_record rfl).symm)
  | refuse =>
    refine ⟨del, pen, ⟨hports, hacc, h.delivered, ?_, h.sorted, h.counts⟩, List.prefix_rfl⟩
    rw [creditHdrs_append, creditHdrs_refusalPkt, List.append_nil]
    exact h.pending
  | @deliver _ pkt rest cap mem t hpend hcap =>
    have hown := h.ports.owned pkt (by simp [hpend])
    have hpen := h.pending
    rw [hpend] at hpen
    obtain ⟨a, b, ha, hb, hmem, hsort⟩ := grants_cutFor del hcap hown hpen
    refine ⟨del ++ a, b, ⟨hports, hacc, ?_, hb, ?_, fun n hn => ?_⟩, List.prefix_append _ _⟩
    · rw [creditHdrs_append]
      exact List.rel_append h.delivered ha
    · rw [List.append_assoc]
      exact hsort h.sorted
    · rw [List.append_assoc, List.mem_append] at hn
      exact h.counts n (List.mem_append.mpr (hn.imp id (hmem n)))
  | @lose _ pkt rest cap mem segs hpend hcap =>
    have hown := h.ports.owned pkt (by simp [hpend])
    have hpen := h.pending
    rw [hpend] at hpen
    obtain ⟨a, b, -, hb, hmem, hsort⟩ := grants_cutFor del hcap hown hpen
    have hsub : (del ++ b).Sublist (del ++ (a ++ b)) :=
      (List.sublist_append_right a b).append_left del
    refine ⟨del, b, ⟨hports, hacc, h.delivered, hb, ?_, fun n hn => ?_⟩, List.prefix_rfl⟩
    · exact (hsort h.sorted).sublist hsub
    · have hn' := hsub.subset hn
      rw [List.mem_append] at hn'
      exact h.counts n (List.mem_append.mpr (hn'.imp id (hmem n)))
  | quiet | dropConns =>
    exact ⟨del, pen, ⟨hports, hacc, h.delivered, h.pending, h.sorted, h.counts⟩, List.prefix_rfl⟩
  | register hn =>
    rw [addConn, if_pos hn] at hports hacc hhist ⊢
    refine ⟨del, pen, ⟨hports, hacc, h.delivered, h.pending, h.sorted, fun n hn => ?_⟩,
      List.prefix_rfl⟩
    exact (h.counts n hn).mono hhist
  | reset =>
    refine ⟨del, [], ⟨hports, hacc, h.delivered, .nil, ?_, fun n hn => ?_⟩, List.prefix_rfl⟩
    · rw [List.append_nil]
      exact h.sorted.sublist (List.sublist_append_left _ _)
    · rw [List.append_nil] at hn
      exact h.counts n (List.mem_append_left _ hn)

/-! ### No overrun -/

theorem arrived_life (hports : Ports s) (p : UInt32) :
    arrived (s.history p) = arrived (life (s.history p)) := by
  obtain ⟨pre, hpre, heq⟩ := hports.once p
  have hzero : arrived pre = 0 := by
    rcases hpre with rfl | rfl <;> rfl
  rw [heq, arrived_append, hzero, Nat.zero_add, ← heq]

/-- Nothing is given back that did not arrive, also when the connection is gone. -/
theorem Credit.owed (h : Credit p s del pen) : credited (s.history p) ≤ arrived (s.history p) := by
  have hbal : Solvent ((life (s.history p)).take (life (s.history p)).length) :=
    (h.accounts.past p).take ⟨Nat.zero_le _, Nat.le_refl 0⟩ _
  rw [List.take_length] at hbal
  rw [credited_life h.ports, arrived_life h.ports]
  exact (credited_le_released _).trans hbal.owed

/-- Every event but `overrun` leaves a history clean. -/
theorem overrun_record {h : UInt32 → List Event} (hclean : .overrun ∉ h p)
    (hevs : .overrun ∉ evs) : .overrun ∉ record h q evs p := by
  by_cases hq : p = q
  · subst hq
    rw [record_self, List.mem_append, not_or]
    exact ⟨hclean, hevs⟩
  · rwa [record_ne _ _ hq]

/-- **A packet within the credit does not overrun**: when no more arrived than was sent,
and no more was sent than what was given back and the buffer allow. -/
theorem Credit.clean (h : Credit p s del pen) (hstep : Step l s s') {sent : ℕ}
    (harr : arrived (s'.history p) ≤ sent)
    (hsent : sent ≤ credited (s.history p) + ourBufAlloc.toNat) (hclean : .overrun ∉ s.history p) :
    .overrun ∉ s'.history p := by
  cases hstep with
  | host _ hhost => exact overrun_record hclean (by cases hhost <;> simp)
  | arrive _ _ _ _ harrive =>
    refine overrun_record hclean ?_
    cases harrive with
    | shut =>
      unfold Conn.shutClears
      split <;> simp
    | _ => simp
  | fill _ hfill => exact overrun_record hclean (by cases hfill <;> simp)
  | ended => exact overrun_record hclean (by simp)
  | register hn =>
    rw [addConn, if_pos hn]
    exact overrun_record hclean (by simp)
  | refuse | deliver | lose | quiet | reset | dropConns => exact hclean
  | @overrun _ pkt hdr c₀ c _ _ hop hc hcredit _ _ _ hfit =>
    by_cases hp : p = hdr.dstPort
    · exfalso
      subst hp
      have acc := h.accounts.conns _ _ hc
      have hwait := acc.waiting
      have haccept := acc.accepted
      have hgiven := credited_le_released (life (s.history hdr.dstPort))
      have hbody : (rwBody hdr pkt).length ≤ hdr.len.toNat := List.length_take_le ..
      have hto : c.toHost = c₀.toHost := by
        obtain ⟨buf, fwd, heq⟩ := c₀.takeCredit_eq hdr
        rw [hcredit, heq]
      have harr' : arrived (record s.history hdr.dstPort [.handled hdr, .overrun] hdr.dstPort) =
          arrived (s.history hdr.dstPort) + hdr.len.toNat := by
        rw [record_self, arrived_append]
        simp [arrived, hop]
      have harr'' : arrived (s.history hdr.dstPort) + hdr.len.toNat ≤ sent := harr' ▸ harr
      rw [arrived_life h.ports] at harr''
      rw [credited_life h.ports] at hsent
      rw [hto] at hfit
      rw [released] at hgiven
      omega
    · show .overrun ∉ record s.history hdr.dstPort _ p
      rwa [record_ne _ _ hp]

end Credit

end VirtioVsock
