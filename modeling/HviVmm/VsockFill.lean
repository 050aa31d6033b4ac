/-
Filling RX buffers ends.

`fill_rx_buffers` is a loop without a bound: it frames a packet when none is
pending, writes the front one into a buffer, and goes on until there is nothing to
send or no buffer to take it.  The model gives it a number of rounds.

* `Fills` — the loop as the source has it;
* `frameBacklog_load`, `deliver_load` — every round leaves less to move;
* `fills_iff` — the loop always ends, where the model's rounds end;
* `fill_rx_buffers_ends` — the same, with what one round moves.
-/
import HviVmm.VsockSettled

namespace VirtioVsock

/-- The loop of `fill_rx_buffers`, run until it stops. -/
inductive Fills : VirtioVsock → VirtioVsock → Prop
  /-- There is nothing to send. -/
  | dry {s : VirtioVsock} (h : s.refill = none) : Fills s s
  /-- The packet at the front cannot go out. -/
  | stop {s s₁ : VirtioVsock} (h : s.refill = some s₁) (hstop : s₁.deliver.1 = false) :
      Fills s s₁.deliver.2
  | again {s s₁ s' : VirtioVsock} (h : s.refill = some s₁) (hgo : s₁.deliver.1 = true)
      (hrest : Fills s₁.deliver.2 s') : Fills s s'

/-! ### What is left to move -/

/-- The packets' part of `load`. -/
def pktLoad (pkts : List Packet) : ℕ := (pkts.map fun pkt => pkt.length + 1).sum

/-- The bytes in all backlogs. -/
def backlogLoad (conns : AList fun _ : UInt32 => Conn) : ℕ :=
  (conns.entries.map fun e => e.2.backlog.length).sum

section Load

variable {s s' : VirtioVsock} {p : UInt32} {c : Conn}

theorem load_eq (s : VirtioVsock) : s.load = pktLoad s.pending + 137 * backlogLoad s.conns := rfl

theorem pktLoad_append (pkts pkts' : List Packet) :
    pktLoad (pkts ++ pkts') = pktLoad pkts + pktLoad pkts' := by
  simp [pktLoad]

theorem backlogLoad_erase (hc : s.conn p = some c) :
    backlogLoad (s.conns.erase p) + c.backlog.length = backlogLoad s.conns := by
  have hkey : p ∈ s.conns.entries.keys :=
    AList.mem_keys.mp (AList.lookup_isSome.mp (by rw [conn] at hc; simp [hc]))
  obtain ⟨d, l₁, l₂, hnot, hentries, herase⟩ := List.exists_of_kerase hkey
  have hd : d = c := by
    have hmem : (⟨p, d⟩ : Sigma fun _ : UInt32 => Conn) ∈ s.conns.entries := by simp [hentries]
    have hlook := AList.mem_lookup_iff.mpr hmem
    rw [Option.mem_def, show s.conns.lookup p = some c from hc, Option.some.injEq] at hlook
    exact hlook.symm
  have herase' : (s.conns.erase p).entries = l₁ ++ l₂ := herase
  rw [backlogLoad, backlogLoad, herase', hentries, hd]
  simp
  omega

theorem backlogLoad_insert (conns : AList fun _ : UInt32 => Conn) (p : UInt32) (c : Conn) :
    backlogLoad (conns.insert p c) = c.backlog.length + backlogLoad (conns.erase p) := rfl

theorem pktLoad_controlPkt (p : UInt32) (op : UInt16) (flags fwd : UInt32) :
    pktLoad [controlPkt p op flags fwd] = 45 := by
  simp [pktLoad, controlPkt, hdrLen]

theorem pktLoad_rwPkt (p : UInt32) (body : List UInt8) (fwd : UInt32) :
    pktLoad [rwPkt p body fwd] = 45 + body.length := by
  simp [pktLoad, rwPkt, hdrLen]
  omega

/-- Settling queues at most two packets without a payload. -/
theorem pktLoad_tellGuest (c : Conn) (p : UInt32) : pktLoad (c.tellGuest p).2 ≤ 45 := by
  unfold Conn.tellGuest
  split
  · split
    · exact (pktLoad_controlPkt ..).le
    · unfold Conn.announce
      split
      · exact (pktLoad_controlPkt ..).le
      · exact Nat.zero_le _
  · exact Nat.zero_le _

theorem pktLoad_farewell (c : Conn) (p : UInt32) : pktLoad (c.farewell p) ≤ 45 := by
  unfold Conn.farewell
  split
  · split
    · exact (pktLoad_controlPkt ..).le
    · split
      · exact (pktLoad_controlPkt ..).le
      · exact Nat.zero_le _
  · exact Nat.zero_le _

/-- Settling leaves the backlog of a connection as it is. -/
theorem settleConn_backlog (c : Conn) (p : UInt32) :
    (c.shutHostWrite.tellGuest p).1.backlog = c.backlog := by
  obtain ⟨up, hangups, told, reset, heq, -⟩ := c.shutHostWrite.tellGuest_fields p
  rw [heq]
  unfold Conn.shutHostWrite
  split <;> rfl

theorem length_tellGuest (c : Conn) (p : UInt32) : (c.tellGuest p).2.length ≤ 1 := by
  unfold Conn.tellGuest
  split
  · split
    · exact Nat.le_refl 1
    · unfold Conn.announce
      split
      · exact Nat.le_refl 1
      · exact Nat.zero_le 1
  · exact Nat.zero_le 1

theorem length_farewell (c : Conn) (p : UInt32) : (c.farewell p).length ≤ 1 := by
  unfold Conn.farewell
  split
  · split
    · exact Nat.le_refl 1
    · split
      · exact Nat.le_refl 1
      · exact Nat.zero_le 1
  · exact Nat.zero_le 1

theorem settle_load (s : VirtioVsock) (p : UInt32) : (s.settle p).load ≤ s.load + 90 := by
  unfold settle
  cases hc : s.conn p with
  | none => exact Nat.le_add_right _ _
  | some c =>
    have hback := settleConn_backlog c p
    have htell := pktLoad_tellGuest c.shutHostWrite p
    have herase := backlogLoad_erase hc
    simp only
    generalize c.shutHostWrite.tellGuest p = told at hback htell ⊢
    split
    · have hbye := pktLoad_farewell told.1 p
      simp only [load_eq, remove, commit, erase_insert, pktLoad_append]
      omega
    · simp only [load_eq, commit, pktLoad_append, backlogLoad_insert, hback]
      omega

/-- Settling queues two packets at most, and adds no byte to a backlog. -/
theorem settle_queues (s : VirtioVsock) (p : UInt32) :
    (s.settle p).pending.length ≤ s.pending.length + 2 ∧
      backlogLoad (s.settle p).conns ≤ backlogLoad s.conns := by
  unfold settle
  cases hc : s.conn p with
  | none => exact ⟨Nat.le_add_right _ _, Nat.le_refl _⟩
  | some c =>
    have hback := settleConn_backlog c p
    have htell := length_tellGuest c.shutHostWrite p
    have herase := backlogLoad_erase hc
    simp only
    generalize c.shutHostWrite.tellGuest p = told at hback htell ⊢
    split
    · have hbye := length_farewell told.1 p
      simp only [remove, commit, erase_insert, List.length_append]
      omega
    · simp only [commit, List.length_append, backlogLoad_insert, hback]
      omega

theorem frameLen_pos (hf : c.framable = true) : 0 < c.frameLen ∧ c.frameLen ≤ c.backlog.length := by
  simp only [Conn.framable, Bool.and_eq_true, Bool.not_eq_true', List.isEmpty_eq_false_iff,
    decide_eq_true_eq] at hf
  have hpos := List.length_pos_iff.mpr hf.1.2
  have hcredit := hf.2
  simp only [Conn.frameLen, maxRw]
  omega

/-- Framing moves a byte at least out of a backlog, into one packet. -/
theorem frameBacklog_moves (h : s.frameBacklog = some s') :
    backlogLoad s'.conns < backlogLoad s.conns ∧ s'.pending.length ≤ s.pending.length + 3 := by
  obtain ⟨p, c, hc, hf, rfl⟩ := frameBacklog_spec h
  have hsettle := settle_queues (({ s with nextTurn := p + 1 }).commit p (c.frame c.frameLen)
    [rwPkt p (c.backlog.take c.frameLen) c.rxCnt] [.framed (c.backlog.take c.frameLen)]) p
  have herase := backlogLoad_erase hc
  have hlen := frameLen_pos hf
  simp only [commit, backlogLoad_insert, Conn.frame, List.length_drop, List.length_append,
    List.length_singleton] at hsettle ⊢
  omega

/-- **Framing leaves less to move**: a byte in the backlog weighs more than the packet
it goes into and what settling adds. -/
theorem frameBacklog_load (h : s.frameBacklog = some s') : s'.load < s.load := by
  obtain ⟨p, c, hc, hf, rfl⟩ := frameBacklog_spec h
  refine Nat.lt_of_le_of_lt (settle_load _ p) ?_
  have herase := backlogLoad_erase hc
  have hlen := frameLen_pos hf
  simp only [load_eq, commit, pktLoad_append, pktLoad_rwPkt, backlogLoad_insert, Conn.frame,
    List.length_take, List.length_drop]
  omega

theorem refill_load (h : s.refill = some s') : s'.load ≤ s.load := by
  unfold refill at h
  split at h
  · exact (frameBacklog_load h).le
  · cases h
    exact Nat.le_refl _

/-- What stays pending of a packet that goes out is shorter. -/
theorem pktLoad_cutFor {cap : ℕ} {pkt : Packet} (hcap : hdrLen ≤ cap)
    (hcut : ¬ (cap < pkt.length ∧ cap = hdrLen)) (rest : List Packet) :
    pktLoad (cutFor cap pkt rest).2 < pktLoad (pkt :: rest) := by
  unfold cutFor
  split
  · next hlt =>
    have hparse : ¬ pkt.length < hdrLen := by omega
    simp only [splitPending, Hdr.parse, if_neg hparse, pktLoad, List.map_cons, List.sum_cons,
      List.length_append, Hdr.length_toBytes, List.length_drop]
    omega
  · simp only [pktLoad, List.map_cons, List.sum_cons]
    omega

theorem place_pending (s : VirtioVsock) (head : UInt16) (segs : List Seg)
    (cut : Packet × List Packet) : (s.place head segs cut).2.pending = cut.2 := by
  unfold place
  simp only
  split <;> rfl

theorem place_conns (s : VirtioVsock) (head : UInt16) (segs : List Seg)
    (cut : Packet × List Packet) : (s.place head segs cut).2.conns = s.conns := by
  unfold place
  simp only
  split <;> rfl

theorem place_load (s : VirtioVsock) (head : UInt16) (segs : List Seg)
    (cut : Packet × List Packet) :
    (s.place head segs cut).2.load = pktLoad cut.2 + 137 * backlogLoad s.conns := by
  rw [load_eq, place_pending, place_conns]

/-- A round goes on only from a chain that takes the packet at the front, or its head. -/
theorem deliver_goes (h : s.deliver.1 = true) : ∃ head segs pkt rest,
    s.rxHead = some head ∧ s.rxChain head = some segs ∧ s.pending = pkt :: rest ∧
      hdrLen ≤ totalLen segs ∧ ¬ (totalLen segs < pkt.length ∧ totalLen segs = hdrLen) ∧
      s.deliver = ({ s with walked := s.walked ++ [segs] }).place head segs
        (cutFor (totalLen segs) pkt rest) := by
  unfold deliver at h ⊢
  cases hhead : s.rxHead with
  | none => simp [hhead] at h
  | some head =>
    cases hchain : s.rxChain head with
    | none => simp [hhead, hchain] at h
    | some segs =>
      simp only [hhead, hchain] at h ⊢
      cases hpend : s.pending with
      | nil => simp [hpend] at h
      | cons pkt rest =>
        simp only [hpend] at h ⊢
        split at h
        · cases h
        · next hcap =>
          rw [not_or, Nat.not_lt] at hcap
          refine ⟨head, segs, pkt, rest, rfl, hchain, rfl, hcap.1, hcap.2, ?_⟩
          exact if_neg (by rwa [not_or, Nat.not_lt])

/-- **Delivery leaves less to move.** -/
theorem deliver_load (h : s.deliver.1 = true) : s.deliver.2.load < s.load := by
  obtain ⟨head, segs, pkt, rest, -, -, hpend, hcap, hcut, heq⟩ := deliver_goes h
  have hless := pktLoad_cutFor hcap hcut rest
  rw [heq, place_load, load_eq, hpend]
  exact Nat.add_lt_add_right hless _

/-- A round that goes on has taken the front of `pending`, or its first bytes. -/
theorem deliver_moves (h : s.deliver.1 = true) : s.deliver.2.conns = s.conns ∧
    ∃ pkt rest, s.pending = pkt :: rest ∧ (s.deliver.2.pending = rest ∨
      ∃ tail, s.deliver.2.pending = tail :: rest ∧ tail.length < pkt.length) := by
  obtain ⟨head, segs, pkt, rest, -, -, hpend, hcap, hcut, heq⟩ := deliver_goes h
  have hless := pktLoad_cutFor hcap hcut rest
  rw [heq, place_pending, place_conns]
  refine ⟨rfl, pkt, rest, hpend, ?_⟩
  unfold cutFor at hless ⊢
  split
  · next hlong =>
    rw [if_pos hlong] at hless
    refine .inr ⟨_, rfl, ?_⟩
    simp only [pktLoad, List.map_cons, List.sum_cons] at hless
    omega
  · exact .inl rfl

/-! ### The loop -/

/-- With enough rounds the model's loop runs until it stops. -/
theorem fillLoop_fills {n : ℕ} (h : s.load < n) : Fills s (fillLoop n s) := by
  induction n generalizing s with
  | zero => omega
  | succ n ih =>
    rw [fillLoop]
    cases hr : s.refill with
    | none => exact .dry hr
    | some s₁ =>
      simp only
      split
      · next hgo =>
        have h₁ := refill_load hr
        have h₂ := deliver_load hgo
        exact .again hr hgo (ih (by omega))
      · next hstop => exact .stop hr (by simpa using hstop)

theorem Fills.eq (h : Fills s s') {n : ℕ} (hn : s.load < n) : s' = fillLoop n s := by
  induction h generalizing n with
  | dry hr =>
    cases n with
    | zero => omega
    | succ n => simp only [fillLoop, hr]
  | stop hr hstop =>
    cases n with
    | zero => omega
    | succ n => simp [fillLoop, hr, hstop]
  | again hr hgo _ ih =>
    cases n with
    | zero => omega
    | succ n =>
      have h₁ := refill_load hr
      have h₂ := deliver_load hgo
      simp only [fillLoop, hr, hgo, if_true]
      exact ih (by omega)

/-- **The loop of `fill_rx_buffers` ends, and where the model says.** -/
theorem fills_iff (s s' : VirtioVsock) : Fills s s' ↔ s' = fillLoop (s.load + 1) s :=
  ⟨fun h => h.eq (Nat.lt_succ_self _), fun h => h ▸ fillLoop_fills (Nat.lt_succ_self _)⟩

/-- **`fill_rx_buffers` ends**, whatever the device and the guest's memory are.  A round frames a
byte at least if nothing is pending, and queues three packets at most then; it goes on only after it
has taken the front of `pending`, or has cut a byte at least off it. -/
theorem fill_rx_buffers_ends (s : VirtioVsock) :
    (∃! s', Fills s s') ∧
    (∀ s₁, s.refill = some s₁ → s₁ = s ∨
      s.pending = [] ∧ backlogLoad s₁.conns < backlogLoad s.conns ∧ s₁.pending.length ≤ 3) ∧
    (s.deliver.1 = true → s.deliver.2.conns = s.conns ∧
      ∃ pkt rest, s.pending = pkt :: rest ∧ (s.deliver.2.pending = rest ∨
        ∃ tail, s.deliver.2.pending = tail :: rest ∧ tail.length < pkt.length)) := by
  refine ⟨⟨_, (fills_iff s _).mpr rfl, fun s' h => (fills_iff s s').mp h⟩, ?_, deliver_moves⟩
  intro s₁ h
  unfold refill at h
  split at h
  · next hempty =>
    have hpend : s.pending = [] := List.isEmpty_iff.mp hempty
    obtain ⟨hback, hlen⟩ := frameBacklog_moves h
    rw [hpend] at hlen
    exact .inr ⟨hpend, hback, hlen⟩
  · exact .inl (Option.some.inj h).symm

end Load

end VirtioVsock
