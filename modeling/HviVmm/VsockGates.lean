/-
The gates of the bridge threads.

A bridge reader waits on its connection's reader gate and a bridge writer on its
writer gate.  Both are cached: calls open and close them where the buffers change.

* `Gated` — the gates say what the buffers hold;
* `exec_gated` — every call leaves all connections gated;
* `vsock_gates_never_strand` — in every run no thread waits for nothing, and a
  reader that heeds its gate bounds the backlog.
-/
import HviVmm.VsockSettled

open VirtioVsock

/-! ### One connection -/

/-- The gates of a connection while `host_data` runs, with a bound `B` on the backlog. -/
structure Loose (B : ℕ → Prop) (c : Conn) : Prop where
  reader : c.readerGate.closed = true →
    hostBacklogMax ≤ c.backlog.length ∨ (c.guestRcvShut = true ∧ c.guestSendShut = false)
  writer : c.writerGate.closed = c.toHost.isEmpty
  cut : c.guestRcvShut = true → c.backlog = []
  bound : B c.backlog.length

/-- The gates of a connection between calls: an open reader gate means room. -/
structure Gated (B : ℕ → Prop) (c : Conn) : Prop extends Loose B c where
  room : c.readerGate.closed = false → c.backlog.length < hostBacklogMax

section Conns

variable {B : ℕ → Prop} (hB : ∀ {m n}, m ≤ n → B n → B m)
  {c c' : Conn} {p : UInt32} {pkts : List Packet} {evs : List Event}

theorem frame_readerGate (c : Conn) (n : ℕ) : (c.frame n).readerGate =
    if (c.backlog.drop n).length < hostBacklogMax then c.readerGate.opened else c.readerGate := rfl

include hB in
/-- Framing opens the reader gate once there is room. -/
theorem Loose.frame (h : Loose B c) (n : ℕ) : Loose B (c.frame n) where
  reader hclosed := by
    by_cases hlen : (c.backlog.drop n).length < hostBacklogMax
    · rw [frame_readerGate, if_pos hlen] at hclosed
      cases hclosed
    · exact .inl (Nat.le_of_not_lt hlen)
  writer := h.writer
  cut hrcv := by
    show c.backlog.drop n = []
    rw [h.cut hrcv, List.drop_nil]
  bound := hB (by simp [Conn.frame]) h.bound

include hB in
theorem Gated.frame (h : Gated B c) (n : ℕ) : Gated B (c.frame n) := by
  refine ⟨h.toLoose.frame hB n, fun hopen => ?_⟩
  by_cases hlen : (c.backlog.drop n).length < hostBacklogMax
  · exact hlen
  · -- the gate was open before, so there was room already
    rw [frame_readerGate, if_neg hlen] at hopen
    exact Nat.lt_of_le_of_lt (by simp [Conn.frame]) (h.room hopen)

include hB in
theorem Loose.fillStep (hstep : FillStep p c c' pkts evs) (h : Loose B c) : Loose B c' := by
  cases hstep with
  | frame => exact h.frame hB _
  | keep | shutWrite | reset | poll | announce => exact ⟨h.reader, h.writer, h.cut, h.bound⟩

include hB in
theorem Gated.fillStep (hstep : FillStep p c c' pkts evs) (h : Gated B c) : Gated B c' := by
  cases hstep with
  | frame => exact h.frame hB _
  | keep | shutWrite | reset | poll | announce =>
    exact ⟨⟨h.reader, h.writer, h.cut, h.bound⟩, h.room⟩

theorem Gated.new (hzero : B 0) (stream : HostStream) : Gated B { stream } :=
  ⟨⟨fun hclosed => (nomatch hclosed), rfl, fun _ => rfl, hzero⟩,
    fun _ => (by decide : 0 < hostBacklogMax)⟩

/-- A change that touches neither the buffers nor what the gates go by. -/
theorem Gated.congr (h : Gated B c) (hr : c'.readerGate = c.readerGate)
    (hw : c'.writerGate = c.writerGate) (hb : c'.backlog = c.backlog) (ht : c'.toHost = c.toHost)
    (hrcv : c'.guestRcvShut = c.guestRcvShut) (hsend : c'.guestSendShut = c.guestSendShut) :
    Gated B c' where
  reader := by
    rw [hr, hb, hrcv, hsend]
    exact h.reader
  writer := by rw [hw, ht, h.writer]
  cut := by
    rw [hrcv, hb]
    exact h.cut
  bound := by
    rw [hb]
    exact h.bound
  room := by
    rw [hr, hb]
    exact h.room

theorem Gated.credit (h : Gated B c) (hdr : Hdr) : Gated B (c.takeCredit hdr) := by
  obtain ⟨buf, fwd, heq⟩ := c.takeCredit_eq hdr
  rw [heq]
  exact h.congr rfl rfl rfl rfl rfl rfl

/-- The guest's shutdown sets the reader gate by what the guest still does. -/
theorem Gated.shut (hB : ∀ {m n}, m ≤ n → B n → B m) (h : Gated B c) (hdr : Hdr) :
    Gated B (c.guestShut hdr) := by
  have hback : (c.guestRcvShut || Conn.shutFlags hdr &&& shutdownRcv != 0) = true →
      (if Conn.shutFlags hdr &&& shutdownRcv != 0 then [] else c.backlog) = [] := by
    intro hrcv
    split
    · rfl
    · next hflag =>
      rw [Bool.not_eq_true] at hflag
      rw [hflag, Bool.or_false] at hrcv
      exact h.cut hrcv
  have hzero : B 0 := hB (Nat.zero_le _) h.bound
  have hmax : 0 < hostBacklogMax := by decide
  simp only [Conn.guestShut]
  split
  · next hrcv =>
    have hnil := hback hrcv
    refine ⟨⟨fun hclosed => .inr ⟨hrcv, ?_⟩, h.writer, fun _ => hnil, ?_⟩, fun _ => ?_⟩
    · rw [← Bool.not_eq_true]
      intro hsend
      simp only at hsend
      simp [hsend, HostGate.opened] at hclosed
    · simp only [hnil, List.length_nil]
      exact hzero
    · simp only [hnil, List.length_nil]
      exact hmax
  · next hrcv =>
    simp only [Bool.not_eq_true, Bool.or_eq_false_iff] at hrcv
    simp only [hrcv.2, Bool.false_eq_true, if_false, Bool.or_false]
    refine ⟨⟨fun hclosed => .inl ?_, h.writer, h.cut, h.bound⟩, h.room⟩
    refine (h.reader hclosed).resolve_right fun hshut => ?_
    rw [hrcv.1] at hshut
    cases hshut.1

end Conns

/-! ### Calls -/

namespace VirtioVsock

section Calls

variable {B : ℕ → Prop} (hB : ∀ {m n}, m ≤ n → B n → B m)
  {s s' : VirtioVsock} {p : UInt32} {c : Conn} {pkts : List Packet} {evs : List Event}
include hB

theorem fillRx_gated (h : Each (Gated B) s) : Each (Gated B) s.fillRx :=
  (fillRx_steps s).fill_each (fun hstep hc => hc.fillStep hB hstep) h

/-- A gated change to a connection, settled and filled. -/
theorem settle_fill_gated (h : EachBut p (Gated B) s) (hc : Gated B c) :
    Each (Gated B) ((s.commit p c pkts evs).settle p).fillRx :=
  fillRx_gated hB ((settle_steps _ p).fill_each (fun hstep hc => hc.fillStep hB hstep)
    (h.commit_each hc))

theorem connect_gated (h : Each (Gated B) s) (p : UInt32) : Each (Gated B) (s.connect p) := by
  unfold connect
  cases hc : s.conn p with
  | none => exact h
  | some c =>
    exact fillRx_gated hB ((h.but p).commit_each ((h p c hc).congr rfl rfl rfl rfl rfl rfl))

/-- `host_data` leaves the reader gate open only when there is room again. -/
theorem hostData_gated (h : Each (Gated B) s) (p : UInt32) (data : List UInt8)
    (hdata : ∀ c, s.conn p = some c → c.guestRcvShut = false → B (c.backlog.length + data.length)) :
    Each (Gated B) (s.hostData p data).2 := by
  unfold hostData
  cases hc : s.conn p with
  | none => exact h
  | some c =>
    have hg := h p c hc
    simp only
    split
    · next hrcv =>
      split
      · exact (h.but p).commit_each hg
      · next hsend =>
        rw [Bool.not_eq_true] at hsend
        refine (h.but p).commit_each ⟨⟨fun _ => .inr ⟨hrcv, hsend⟩, hg.writer, hg.cut, hg.bound⟩,
          ?_⟩
        exact fun hopen => nomatch hopen
    · next hrcv =>
      rw [Bool.not_eq_true] at hrcv
      -- only the room behind an open gate is in doubt, and only on this port
      have hloose : Loose B { c with backlog := c.backlog ++ data } := by
        refine ⟨fun hclosed => ?_, hg.writer, fun hshut => ?_, ?_⟩
        · refine (hg.reader hclosed).imp_left fun hlen => ?_
          rw [List.length_append]
          exact Nat.le_add_right_of_le hlen
        · exact absurd hshut (by simp [hrcv])
        · rw [List.length_append]
          exact hdata c hc hrcv
      have hqueued : Each (Loose B) (s.commit p { c with backlog := c.backlog ++ data } []
          [.passed data, .queued data]) :=
        EachBut.commit_each (fun q d _ hd => (h q d hd).toLoose) hloose
      have hfill := (fillRx_steps _).fill_each (fun hstep hc => hc.fillStep hB hstep) hqueued
      have hbut := (fillRx_steps _).fill_eachBut (fun hstep hc => hc.fillStep hB hstep)
        ((h.but p).commit { c with backlog := c.backlog ++ data } [] [.passed data, .queued data])
      generalize VirtioVsock.fillRx _ = s₁ at hfill hbut ⊢
      cases hc₁ : s₁.conn p with
      | none => exact hbut.each fun d hd => by rw [hc₁] at hd; cases hd
      | some c₁ =>
        have hl := hfill p c₁ hc₁
        simp only
        split
        · next hlen =>
          refine hbut.each fun d hd => ?_
          rw [hc₁, Option.some.injEq] at hd
          exact hd ▸ ⟨hl, fun _ => hlen⟩
        · next hlen =>
          refine hbut.commit_each ⟨⟨fun _ => .inl (Nat.le_of_not_lt hlen), hl.writer, hl.cut,
            hl.bound⟩, fun hopen => nomatch hopen⟩

theorem hostEof_gated (h : Each (Gated B) s) (p : UInt32) : Each (Gated B) (s.hostEof p).2 := by
  unfold hostEof
  cases hc : s.conn p with
  | none => exact h
  | some c =>
    exact settle_fill_gated hB (h.but p) ((h p c hc).congr rfl rfl rfl rfl rfl rfl)

theorem hostHungUp_gated (h : Each (Gated B) s) (p : UInt32) : Each (Gated B) (s.hostHungUp p) := by
  unfold hostHungUp
  cases hc : s.conn p with
  | none => exact h
  | some c =>
    simp only
    split
    · exact settle_fill_gated hB (h.but p) ((h p c hc).congr rfl rfl rfl rfl rfl rfl)
    · exact h

/-- The gates of a connection, apart from its writer gate. -/
def ReaderGated (B : ℕ → Prop) (c : Conn) : Prop :=
  Gated B { c with writerGate := ⟨c.toHost.isEmpty⟩ }

omit hB in
theorem ReaderGated.of_gated (h : Gated B c) : ReaderGated B c :=
  ⟨⟨h.reader, rfl, h.cut, h.bound⟩, h.room⟩

theorem hostGone_gated (h : EachBut p (Gated B) s)
    (hp : ∀ c, s.conn p = some c → ReaderGated B c ∧ (c.hostGone = true → Gated B c)) :
    Each (Gated B) (s.hostGone p) := by
  unfold hostGone
  cases hc : s.conn p with
  | none => exact h.each fun d hd => by rw [hc] at hd; cases hd
  | some c =>
    obtain ⟨hreader, hgone⟩ := hp c hc
    simp only
    split
    · next hg =>
      refine h.each fun d hd => ?_
      rw [hc, Option.some.injEq] at hd
      exact hd ▸ hgone hg
    · exact settle_fill_gated hB h ⟨⟨hreader.reader, rfl, hreader.cut, hreader.bound⟩, hreader.room⟩

/-- A flush sets the writer gate by what is left to write. -/
theorem flushToHost_gated (h : EachBut p (Gated B) s)
    (hp : ∀ c, s.conn p = some c → ReaderGated B c ∧ (c.hostGone = true → c.toHost = [])) :
    Each (Gated B) (s.flushToHost p).2 := by
  unfold flushToHost
  cases hc : s.conn p with
  | none => exact h.each fun d hd => by rw [hc] at hd; cases hd
  | some c =>
    obtain ⟨hreader, hgone⟩ := hp c hc
    obtain ⟨rest, hto, hfail⟩ := send_spec c.stream.writes c.toHost
    simp only
    generalize Conn.send c.stream.writes c.toHost = r at hto hfail ⊢
    split
    · next hf =>
      refine hostGone_gated hB (h.commit _ _ _) fun d hd => ?_
      rw [conn_commit_self, Option.some.injEq] at hd
      subst hd
      refine ⟨⟨⟨hreader.reader, rfl, hreader.cut, hreader.bound⟩, hreader.room⟩, fun hg => ?_⟩
      -- a send that failed had bytes left, so the host was not known to have gone
      have hnil := hgone hg
      rw [hto, List.append_eq_nil_iff] at hnil
      exact absurd hnil.2 (hfail hf)
    · refine settle_fill_gated hB h ⟨⟨hreader.reader, ?_, hreader.cut, hreader.bound⟩, hreader.room⟩
      simp only [Conn.flushed]
      split
      · next hempty => exact hempty.symm
      · next hempty => exact (Bool.not_eq_true _ ▸ hempty).symm

/-! ### Guest packets -/

omit hB in
theorem takeCredit_gated (h : Each (Gated B) s) (hdr : Hdr) :
    Each (Gated B) (s.takeCredit hdr) := by
  unfold takeCredit
  cases hc : s.conn hdr.dstPort with
  | none => exact h
  | some c => exact (h.but _).commit_each ((h _ c hc).credit hdr)

omit hB in
theorem accept_gated (h : Each (Gated B) s) (p : UInt32) : Each (Gated B) (s.accept p) := by
  unfold accept
  cases hc : s.conn p with
  | none => exact h
  | some c =>
    simp only
    split
    · exact (h.but p).commit_each ((h p c hc).congr rfl rfl rfl rfl rfl rfl)
    · exact h

theorem relay_gated (h : Each (Gated B) s) (p : UInt32) (body : List UInt8) :
    Each (Gated B) (s.relay p body) := by
  unfold relay
  cases hc : s.conn p with
  | none => exact h
  | some c =>
    have hg := h p c hc
    simp only
    split
    · split
      · exact fillRx_gated hB ((h.but p).commit_each (hg.congr rfl rfl rfl rfl rfl rfl))
      · next hgone =>
        split
        · exact fillRx_gated hB (h.but p).remove
        · refine fillRx_gated hB (flushToHost_gated hB ((h.but p).commit _ _ _) fun d hd => ?_)
          rw [conn_commit_self, Option.some.injEq] at hd
          subst hd
          exact ⟨⟨⟨hg.reader, rfl, hg.cut, hg.bound⟩, hg.room⟩, fun hg' => absurd hg' hgone⟩
    · exact h

theorem guestShut_gated (h : Each (Gated B) s) (hdr : Hdr) : Each (Gated B) (s.guestShut hdr) := by
  unfold guestShut
  cases hc : s.conn hdr.dstPort with
  | none => exact h
  | some c =>
    simp only
    split
    · exact h
    · exact (settle_steps _ _).fill_each (fun hstep hc => hc.fillStep hB hstep)
        ((h.but _).commit_each ((h _ c hc).shut hB hdr))

omit hB in
theorem answerCredit_gated (h : Each (Gated B) s) (p : UInt32) :
    Each (Gated B) (s.answerCredit p) := by
  unfold answerCredit
  cases hc : s.conn p with
  | none => exact h
  | some c =>
    simp only
    split
    · exact (h.but p).commit_each (h p c hc)
    · exact h

theorem handlers_gated : HandlerInv (Each (Gated B)) where
  conns h heq p c hc := h p c (by rwa [conn, ← heq])
  none heq p c hc := by
    rw [conn, heq] at hc
    cases hc
  fill h := fillRx_gated hB h
  credit hdr h := takeCredit_gated h hdr
  accept p h := accept_gated h p
  relay p body h := relay_gated hB h p body
  shut hdr h := guestShut_gated hB h hdr
  answer p h := answerCredit_gated h p

/-! ### Runs -/

/-- Every call leaves the gates as the buffers are. -/
theorem exec_gated (hzero : B 0) (h : Each (Gated B) s) (hgone : GoneEmpty s) (op : Op)
    (hdata : ∀ p data c, op = .hostData p data → s.conn p = some c → c.guestRcvShut = false →
      B (c.backlog.length + data.length)) : Each (Gated B) (s.exec op) := by
  have hreader : ∀ {p c}, s.conn p = some c → ReaderGated B c :=
    fun {p c} hc => .of_gated (h p c hc)
  cases op with
  | addConn stream => exact h.addConn stream (.new hzero stream)
  | connect p => exact connect_gated hB h p
  | hostData p data => exact hostData_gated hB h p data fun c => hdata p data c rfl
  | hostEof p => exact hostEof_gated hB h p
  | hostHungUp p => exact hostHungUp_gated hB h p
  | hostGone p =>
    exact hostGone_gated hB (h.but p) fun c hc => ⟨hreader hc, fun _ => h p c hc⟩
  | flushToHost p =>
    exact flushToHost_gated hB (h.but p) fun c hc => ⟨hreader hc, hgone p c hc⟩
  | handlePkt pkt => exact (handlers_gated hB).handlePkt h pkt
  | mmioWrite w => exact (handlers_gated hB).mmioWrite h w
  | dropConns => exact fun p c hc => nomatch hc

end Calls

/-- Whenever `host_data` is called it gets at most 8192 bytes, and the reader gate of the
connection it is for is open. -/
def Heeded : VirtioVsock → List Call → Prop
  | _, [] => True
  | s, call :: calls =>
    (∀ p data, call.op = .hostData p data → data.length ≤ 8192 ∧
      ∀ c, s.conn p = some c → c.readerGate.closed = false) ∧ Heeded (s.step call) calls

section Runs

variable {B : ℕ → Prop} (hB : ∀ {m n}, m ≤ n → B n → B m)
include hB

/-- A run whose calls of `host_data` are within bounds. -/
theorem run_gated (hzero : B 0) {A : VirtioVsock → List Call → Prop}
    (hA : ∀ {s call calls}, A s (call :: calls) → A (s.step call) calls)
    (hdata : ∀ {s call calls}, A s (call :: calls) → Each (Gated B) s →
      ∀ p data c, call.op = .hostData p data → s.conn p = some c → c.guestRcvShut = false →
        B (c.backlog.length + data.length))
    (mem : GuestRam) (calls : List Call) (hcalls : A (fresh mem) calls) :
    Each (Gated B) ((fresh mem).run calls) := by
  have hall : ∀ (calls : List Call) (s : VirtioVsock), A s calls → Each (Gated B) s →
      Sessions (fun _ c h => Ledger c h) (EndedWith fun _ c h => Ledger c h) s →
      Each (Gated B) (s.run calls) := by
    intro calls
    induction calls with
    | nil => exact fun _ _ h _ => h
    | cons call calls ih =>
      intro s hcalls h hs
      refine ih _ (hA hcalls) ?_ (sessionInv_ledger.steps (step_steps s call) hs)
      have hram : Each (Gated B) { s with mem := { s.mem with bytes := call.ram } } := h
      have hd := hdata hcalls h
      exact exec_gated hB hzero hram (fun p c hc => (hs.conns p c hc).gone) call.op hd
  exact hall calls _ hcalls (fun p c hc => (nomatch hc)) (sessions_fresh mem)

end Runs

end VirtioVsock

/-- **Gates never strand a bridge thread**: between the calls of every run, a reader gate
is closed only on a full backlog or for a guest that receives nothing and still sends, and
a writer gate is open exactly while bytes wait for the host.  Where a reader gate is open
there is room, and if `host_data` is called with at most 8192 bytes and with the gate open
only, the backlog stays within `HOST_BACKLOG_MAX + 8191`, while the bytes are added too. -/
theorem vsock_gates_never_strand (mem : GuestRam) (calls : List Call) :
    (∀ p c, ((fresh mem).run calls).conn p = some c →
      (c.readerGate.closed = true → hostBacklogMax ≤ c.backlog.length ∨
        (c.guestRcvShut = true ∧ c.guestSendShut = false)) ∧
      (c.writerGate.closed = false ↔ c.toHost ≠ []) ∧
      ∀ data : List UInt8, c.readerGate.closed = false → data.length ≤ 8192 →
        (c.backlog ++ data).length ≤ hostBacklogMax + 8191) ∧
    (Heeded (fresh mem) calls → ∀ p c, ((fresh mem).run calls).conn p = some c →
      c.backlog.length ≤ hostBacklogMax + 8191) := by
  constructor
  · intro p c hc
    have hg := run_gated (B := fun _ => True) (A := fun _ _ => True) (fun _ _ => trivial)
      trivial (fun _ => trivial) (fun _ _ _ _ _ _ _ _ => trivial) mem calls trivial p c hc
    refine ⟨hg.reader, ?_, fun data hopen hlen => ?_⟩
    · rw [hg.writer, List.isEmpty_eq_false_iff]
    · have := hg.room hopen
      rw [List.length_append]
      omega
  · intro hheeded p c hc
    refine (run_gated (B := fun n => n ≤ hostBacklogMax + 8191) (A := Heeded)
      (fun hle hn => hle.trans hn) (Nat.zero_le _) (fun h => h.2) ?_ mem calls hheeded p c hc).bound
    intro s call calls h hg p data c hop hc _
    obtain ⟨hlen, hopen⟩ := h.1 p data hop
    have := (hg p c hc).room (hopen c hc)
    omega

/-- The bridge thread of one connection passes three bytes. -/
def bridgedBytes : List Call :=
  [.addConn {}, .hostData 40000 [7, 8, 9]].map fun op => ⟨op, fun _ => 0⟩

theorem vsock_gates_never_strand_heeded :
    Heeded (fresh sampleRam) bridgedBytes ∧
      ∃ c, ((fresh sampleRam).run bridgedBytes).conn 40000 = some c ∧ c.backlog = [7, 8, 9] ∧
        c.backlog.length ≤ hostBacklogMax + 8191 := by
  have hheeded : Heeded (fresh sampleRam) bridgedBytes := by
    refine ⟨fun p data hop => (by cases hop), fun p data hop => ?_, trivial⟩
    cases hop
    refine ⟨by decide, fun c hc => ?_⟩
    have hopen := congrArg (Option.map fun c => c.readerGate.closed) hc
    exact (Option.some.inj hopen).symm
  obtain ⟨c, hc, hbacklog⟩ :
      ∃ c, ((fresh sampleRam).run bridgedBytes).conn 40000 = some c ∧ c.backlog = [7, 8, 9] :=
    ⟨_, rfl, by decide⟩
  exact ⟨hheeded, c, hc, hbacklog,
    (vsock_gates_never_strand sampleRam bridgedBytes).2 hheeded 40000 c hc⟩
