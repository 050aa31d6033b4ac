/-
An honest guest is never reset.

A guest may have as many bytes on their way to a host as the device advertised.  It
learns what was given back from the packets it reads, as late as it likes, over a
counter that wraps.  If it keeps to what it has read, it never overruns the device.

* `Talk` — the device together with a guest that sends to one port;
* `Talking` — the last count the guest has read and what it has sent form a window;
* `vsock_honest_guest_never_reset` — no run of an honest guest overruns;
* `vsock_refusal_carries_no_count` — an `OP_RST` that refuses the guest's own request
  comes from the same port and counts nothing.
-/
import HviVmm.CreditWindow
import HviVmm.VsockCredit

open VirtioVsock CreditWindow

/-- The device, and a guest that sends to one port: how many of the packets delivered
it has read, and how many bytes it has sent to the port. -/
structure Talk where
  dev : VirtioVsock
  seen : ℕ := 0
  sent : ℕ := 0

/-- What happens next. -/
inductive Move where
  /-- The guest reads the next packet that was delivered, if there is one. -/
  | read
  /-- It sends this many bytes. -/
  | send (n : ℕ)
  /-- The device is called; it may handle what was sent. -/
  | call (call : Call)

namespace Talk

def start (mem : GuestRam) : Talk := { dev := fresh mem }

def next (t : Talk) : Move → Talk
  | .read => { t with seen := min (t.seen + 1) t.dev.delivered.length }
  | .send n => { t with sent := t.sent + n }
  | .call call => { t with dev := t.dev.step call }

def run (t : Talk) (moves : List Move) : Talk := moves.foldl next t

/-- The credit for `p` the guest has read last. -/
def lastCredit (p : UInt32) (t : Talk) : Option Hdr :=
  (creditHdrs p (t.dev.delivered.take t.seen)).getLast?

/-- An honest guest sends within the credit it has read last, in the arithmetic of
the counters; and the device gets no more bytes for `p` than were sent. -/
def honest (p : UInt32) (t : Talk) : Move → Bool
  | .read => true
  | .send n =>
    match t.lastCredit p with
    | none => false
    | some h => decide ((UInt32.ofNat t.sent - h.fwdCnt).toNat + n ≤ h.bufAlloc.toNat)
  | .call call => decide (arrived ((t.dev.step call).history p) ≤ t.sent)

/-- Every move of a run is honest. -/
def honestRun (p : UInt32) : Talk → List Move → Bool
  | _, [] => true
  | t, m :: ms => t.honest p m && honestRun p (t.next m) ms

end Talk

/-! ### The window -/

/-- In a list in order, the last count is the largest. -/
theorem le_lastCount {l : List ℕ} (hsort : l.Pairwise (· ≤ ·)) {n : ℕ} (hn : n ∈ l) :
    n ≤ l.getLast?.getD 0 := by
  rcases List.eq_nil_or_concat l with rfl | ⟨init, x, rfl⟩
  · cases hn
  · rw [List.concat_eq_append] at hsort hn ⊢
    rw [List.pairwise_append] at hsort
    rw [List.getLast?_concat, Option.getD_some]
    rcases List.mem_append.mp hn with hn | hn
    · exact hsort.2.2 n hn x (List.mem_singleton_self x)
    · rw [List.mem_singleton.mp hn]

/-- The guest's side: the counts `got` it has read for `p`, which are among those
delivered, and a window between the last of them and what it sent. -/
structure Talking (p : UInt32) (t : Talk) (del pen got : List ℕ) : Prop where
  credit : Credit p t.dev del pen
  seen : t.seen ≤ t.dev.delivered.length
  grants : List.Forall₂ Grants (creditHdrs p (t.dev.delivered.take t.seen)) got
  pre : got <+: del
  window : Window ourBufAlloc.toNat t.sent (got.getLast?.getD 0)
  inSent : arrived (t.dev.history p) ≤ t.sent
  clean : .overrun ∉ t.dev.history p

namespace Talking

variable {p : UInt32} {t : Talk} {del pen got : List ℕ}

theorem start (p : UInt32) (mem : GuestRam) : Talking p (.start mem) [] [] [] where
  credit := ⟨ports_fresh mem, sessions_fresh mem, .nil, .nil, .nil, fun _ hn => (nomatch hn)⟩
  seen := Nat.le_refl 0
  grants := .nil
  pre := List.prefix_rfl
  window := .start _
  inSent := Nat.le_refl 0
  clean := List.not_mem_nil

theorem read_le (h : Talking p t del pen got) {got' : List ℕ} (hpre : got' <+: del) :
    got'.getLast?.getD 0 ≤ credited (t.dev.history p) := by
  cases hlast : got'.getLast? with
  | none => exact Nat.zero_le _
  | some n =>
    have hn := hpre.subset (List.mem_of_getLast? hlast)
    exact (h.credit.counts n (List.mem_append_left _ hn)).le

/-- The guest reads on: the next count is no smaller, and was given back. -/
theorem read (h : Talking p t del pen got) : ∃ got', Talking p (t.next .read) del pen got' := by
  obtain ⟨m, hm⟩ : ∃ m, m = min (t.seen + 1) t.dev.delivered.length := ⟨_, rfl⟩
  have hseen : t.seen ≤ m := by
    have := h.seen
    omega
  have hcut : creditHdrs p t.dev.delivered =
      creditHdrs p (t.dev.delivered.take m) ++ creditHdrs p (t.dev.delivered.drop m) := by
    rw [← creditHdrs_append, List.take_append_drop]
  have hlen : got.length ≤ (creditHdrs p (t.dev.delivered.take m)).length := by
    rw [← h.grants.length_eq]
    exact (List.Sublist.filterMap _ (List.take_prefix_take_left hseen).sublist).length_le
  -- the counts read now are the first of those delivered
  have hgrants : List.Forall₂ Grants (creditHdrs p (t.dev.delivered.take m))
      (del.take (creditHdrs p (t.dev.delivered.take m)).length) := by
    have := List.forall₂_take (creditHdrs p (t.dev.delivered.take m)).length h.credit.delivered
    rwa [hcut, List.take_left'] at this
    rfl
  have hpre := List.take_prefix (creditHdrs p (t.dev.delivered.take m)).length del
  have hsort := (h.credit.sorted.sublist (List.sublist_append_left _ _)).sublist hpre.sublist
  generalize del.take (creditHdrs p (t.dev.delivered.take m)).length = got' at hgrants hpre hsort
  have hgot : got <+: got' :=
    List.prefix_of_prefix_length_le h.pre hpre (by rwa [← hgrants.length_eq])
  have hle : got.getLast?.getD 0 ≤ got'.getLast?.getD 0 := by
    cases hlast : got.getLast? with
    | none => exact Nat.zero_le _
    | some n => exact le_lastCount hsort (hgot.subset (List.mem_of_getLast? hlast))
  have hsent : got'.getLast?.getD 0 ≤ t.sent :=
    (h.read_le hpre).trans (h.credit.owed.trans h.inSent)
  have hnext : t.next .read = { t with seen := m } := by rw [hm]; rfl
  rw [hnext]
  refine ⟨got', h.credit, ?_, hgrants, hpre, h.window.report hle hsent, h.inSent, h.clean⟩
  show m ≤ t.dev.delivered.length
  omega

/-- The last header of a list grants the last count. -/
theorem grants_last {hs : List Hdr} {l : List ℕ} (h : List.Forall₂ Grants hs l) {hdr : Hdr}
    (hlast : hs.getLast? = some hdr) : Grants hdr (l.getLast?.getD 0) := by
  have hrev := List.rel_reverse h
  rw [← List.head?_reverse] at hlast ⊢
  cases hrev' : hs.reverse with
  | nil =>
    rw [hrev'] at hlast
    cases hlast
  | cons a as =>
    rw [hrev', List.head?_cons, Option.some.injEq] at hlast
    rw [hrev', List.forall₂_cons_left_iff] at hrev
    obtain ⟨n, ns, hgrant, -, heq⟩ := hrev
    rw [heq, ← hlast]
    exact hgrant

/-- The guest sends within the credit it has read last. -/
theorem send (h : Talking p t del pen got) {n : ℕ} (hhonest : t.honest p (.send n) = true) :
    Talking p (t.next (.send n)) del pen got := by
  unfold Talk.honest at hhonest
  cases hlast : t.lastCredit p with
  | none => simp [hlast] at hhonest
  | some hdr =>
    simp only [hlast, decide_eq_true_eq] at hhonest
    obtain ⟨hbuf, hfwd⟩ := grants_last h.grants hlast
    rw [hbuf, hfwd] at hhonest
    exact ⟨h.credit, h.seen, h.grants, h.pre, h.window.send (by decide) hhonest,
      h.inSent.trans (Nat.le_add_right _ _), h.clean⟩

/-- What has to hold of the device: no port has come back, the connection was offered
once, and no more arrived than was sent. -/
structure Kept (p : UInt32) (sent : ℕ) (s : VirtioVsock) : Prop where
  ports : s.registrations ≤ 2 ^ 32
  once : (s.history p).count .offered ≤ 1
  inSent : arrived (s.history p) ≤ sent

theorem Kept.back {sent : ℕ} {s s' : VirtioVsock} {l : Label} (hstep : Step l s s')
    (h : Kept p sent s') : Kept p sent s where
  ports := hstep.registrations_le.1.trans h.ports
  once := ((hstep.history_le p).sublist.count_le _).trans h.once
  inSent := (arrived_mono (hstep.history_le p)).trans h.inSent

/-- The device is called: it may take many steps, but handles nothing that was not
sent. -/
theorem call (h : Talking p t del pen got) {call : Call}
    (hkept : Kept p t.sent (t.dev.step call)) :
    ∃ del' pen', Talking p (t.next (.call call)) del' pen' got := by
  have hsent : t.sent ≤ credited (t.dev.history p) + ourBufAlloc.toNat :=
    h.window.fits.trans (Nat.add_le_add_right (h.read_le h.pre) _)
  have hback : ∀ {s s' : VirtioVsock} {l : Label}, AnyLabel l → Step l s s' →
      Kept p t.sent s' → Kept p t.sent s := fun _ hstep => Kept.back hstep
  -- carried through the steps: the counts, what was delivered, and a clean history
  obtain ⟨⟨del', pen', hcredit, hdel⟩, hdelivered, hhist, hclean⟩ :=
    (step_steps t.dev call).inv_of_good
      (P := fun s => (∃ del' pen', Credit p s del' pen' ∧ del <+: del') ∧
        t.dev.delivered <+: s.delivered ∧ t.dev.history p <+: s.history p ∧
        .overrun ∉ s.history p)
      hback
      (fun {s s' l} _ hstep hkept hs => by
        obtain ⟨⟨del₁, pen₁, hcredit, hdel⟩, hdelivered, hhist, hclean⟩ := hs
        obtain ⟨del₂, pen₂, hcredit', hdel'⟩ := hcredit.step hstep hkept.ports hkept.once
        have hsent' := hsent.trans (Nat.add_le_add_right (credited_mono hhist) _)
        exact ⟨⟨del₂, pen₂, hcredit', hdel.trans hdel'⟩, hdelivered.trans hstep.delivered_le,
          hhist.trans (hstep.history_le p), hcredit.clean hstep hkept.inSent hsent' hclean⟩)
      ⟨⟨del, pen, h.credit, List.prefix_rfl⟩, List.prefix_rfl, List.prefix_rfl, h.clean⟩ hkept
  refine ⟨del', pen', hcredit, h.seen.trans hdelivered.length_le, ?_, h.pre.trans hdel, h.window,
    hkept.inSent, hclean⟩
  show List.Forall₂ Grants (creditHdrs p ((t.dev.step call).delivered.take t.seen)) got
  obtain ⟨more, heq⟩ := hdelivered
  rw [← heq, List.take_append_of_le_length h.seen]
  exact h.grants

/-- What was registered and recorded before a move is still there after it. -/
theorem next_grows (p : UInt32) (t : Talk) (m : Move) :
    t.dev.registrations ≤ (t.next m).dev.registrations ∧
      t.dev.history p <+: (t.next m).dev.history p := by
  cases m with
  | read | send => exact ⟨Nat.le_refl _, List.prefix_rfl⟩
  | call call =>
    refine (step_steps t.dev call).inv (P := fun s => t.dev.registrations ≤ s.registrations ∧
      t.dev.history p <+: s.history p) (fun _ hstep hs => ?_) ⟨Nat.le_refl _, List.prefix_rfl⟩
    exact ⟨hs.1.trans hstep.registrations_le.1, hs.2.trans (hstep.history_le p)⟩

theorem run_grows (p : UInt32) (t : Talk) (moves : List Move) :
    t.dev.registrations ≤ (t.run moves).dev.registrations ∧
      t.dev.history p <+: (t.run moves).dev.history p := by
  induction moves generalizing t with
  | nil => exact ⟨Nat.le_refl _, List.prefix_rfl⟩
  | cons m moves ih =>
    have h₁ := next_grows p t m
    have h₂ := ih (t.next m)
    exact ⟨h₁.1.trans h₂.1, h₁.2.trans h₂.2⟩

/-- **One honest move** keeps the window. -/
theorem step (h : Talking p t del pen got) {m : Move} (hhonest : t.honest p m = true)
    (hports : (t.next m).dev.registrations ≤ 2 ^ 32)
    (honce : ((t.next m).dev.history p).count .offered ≤ 1) :
    ∃ del' pen' got', Talking p (t.next m) del' pen' got' := by
  cases m with
  | read =>
    obtain ⟨got', h'⟩ := h.read
    exact ⟨del, pen, got', h'⟩
  | send n => exact ⟨del, pen, got, h.send hhonest⟩
  | call call =>
    simp only [Talk.honest, decide_eq_true_eq] at hhonest
    obtain ⟨del', pen', h'⟩ := h.call ⟨hports, honce, hhonest⟩
    exact ⟨del', pen', got, h'⟩

/-- **Every honest run** keeps the window. -/
theorem run (h : Talking p t del pen got) {moves : List Move}
    (hhonest : t.honestRun p moves = true) (hports : (t.run moves).dev.registrations ≤ 2 ^ 32)
    (honce : ((t.run moves).dev.history p).count .offered ≤ 1) :
    ∃ del' pen' got', Talking p (t.run moves) del' pen' got' := by
  induction moves generalizing t del pen got with
  | nil => exact ⟨del, pen, got, h⟩
  | cons m moves ih =>
    rw [Talk.honestRun, Bool.and_eq_true] at hhonest
    have hgrow := run_grows p (t.next m) moves
    obtain ⟨del₁, pen₁, got₁, h₁⟩ := h.step hhonest.1 (hgrow.1.trans hports)
      ((hgrow.2.sublist.count_le _).trans honce)
    exact ih h₁ hhonest.2 hports honce

end Talking

/-- At some moment of `h`, `n` bytes had been taken by the host or dropped because it
had gone.  Those a socket took in a flush that then failed may be left out. -/
def IsReleased (n : ℕ) (h : List Event) : Prop :=
  ∃ k ≤ h.length, n ≤ released (h.take k) ∧
    ((∀ data, .took data false ∈ h.take k → data = []) → n = released (h.take k))

theorem IsCount.released {n : ℕ} {h : List Event} (hn : IsCount n h) : IsReleased n h := by
  obtain ⟨k, hk, rfl⟩ := hn
  exact ⟨k, hk, credited_le_released _, credited_eq_released⟩

theorem map_fwdCnt_of_grants {hs : List Hdr} {l : List ℕ} (h : List.Forall₂ Grants hs l) :
    hs.map Hdr.fwdCnt = l.map UInt32.ofNat := by
  induction h with
  | nil => rfl
  | cons hgrant _ ih => rw [List.map_cons, List.map_cons, hgrant.2, ih]

/-- **An honest guest is never reset.**  In every run in which a guest sends bytes to a
port within the credit it has read last, no port is handed out twice and the bridge
offers the connection once: the device never finds the port overrun; at every moment
what waits for the host fits in the buffer advertised; and the counters delivered to
the guest for the port stand, in the order of delivery, for counts that never go down,
of bytes the host took or that were dropped. -/
theorem vsock_honest_guest_never_reset (mem : GuestRam) (p : UInt32) (moves : List Move)
    (hports : ((Talk.start mem).run moves).dev.registrations ≤ 2 ^ 32)
    (honce : (((Talk.start mem).run moves).dev.history p).count .offered ≤ 1)
    (hhonest : (Talk.start mem).honestRun p moves = true) :
    .overrun ∉ ((Talk.start mem).run moves).dev.history p ∧
      (∀ k, (tally Event.appendedBytes
          ((life (((Talk.start mem).run moves).dev.history p)).take k)).length ≤
        (tally Event.tookBytes
          ((life (((Talk.start mem).run moves).dev.history p)).take k)).length +
        (tally Event.droppedBytes
          ((life (((Talk.start mem).run moves).dev.history p)).take k)).length +
        ourBufAlloc.toNat) ∧
      (∀ c, ((Talk.start mem).run moves).dev.conn p = some c →
        c.toHost.length ≤ ourBufAlloc.toNat) ∧
      ∃ counts : List ℕ,
        (creditHdrs p ((Talk.start mem).run moves).dev.delivered).map Hdr.fwdCnt =
          counts.map UInt32.ofNat ∧
        counts.Pairwise (· ≤ ·) ∧
        ∀ n ∈ counts, IsReleased n (((Talk.start mem).run moves).dev.history p) := by
  obtain ⟨del, pen, got, h⟩ := (Talking.start p mem).run hhonest hports honce
  refine ⟨h.clean, fun k => ?_, fun c hc => (h.credit.accounts.conns p c hc).fits, del,
    map_fwdCnt_of_grants h.credit.delivered,
    h.credit.sorted.sublist (List.sublist_append_left _ _),
    fun n hn => (h.credit.counts n (List.mem_append_left _ hn)).released⟩
  have hbal : Solvent ((life (((Talk.start mem).run moves).dev.history p)).take k) :=
    (h.credit.accounts.past p).take ⟨Nat.zero_le _, Nat.le_refl 0⟩ k
  exact hbal.waits

/-- The calls up to a connection with port 40000 whose host takes three bytes, which an
honest guest sends and reads the credit for. -/
def threeBytes : List Move :=
  rxSetup.map .call ++
    [.call ⟨.addConn { writes := [.took 3] }, rxRam 4⟩, .call ⟨.connect 40000, rxRam 4⟩,
      .call ⟨.handlePkt (agentPkt 40000 opResponse 0 64 0 []), rxRam 4⟩, .read, .send 3,
      .call ⟨.handlePkt (agentPkt 40000 opRw 0 64 0 [1, 2, 3]), rxRam 4⟩, .read]

theorem vsock_honest_guest_three_bytes :
    (Talk.start sampleRam).honestRun 40000 threeBytes = true ∧
      (creditHdrs 40000 ((Talk.start sampleRam).run threeBytes).dev.delivered).map Hdr.fwdCnt =
        [0, 3] ∧
      .overrun ∉ ((Talk.start sampleRam).run threeBytes).dev.history 40000 := by
  have hhonest : (Talk.start sampleRam).honestRun 40000 threeBytes = true := by decide +kernel
  refine ⟨hhonest, by decide +kernel, ?_⟩
  exact (vsock_honest_guest_never_reset sampleRam 40000 threeBytes (by decide +kernel)
    (by decide +kernel) hhonest).1

/-- The same guest then requests a connection to port 40000, which is refused. -/
def refusedTalk : List Move :=
  threeBytes ++ [.call ⟨.handlePkt (agentPkt 40000 opRequest 0 64 0 []), rxRam 4⟩]

/-- An `OP_RST` that refuses a guest's own request counts no bytes: with it, what an
honest guest gets from the port of a live connection goes down from three bytes to
none. -/
theorem vsock_refusal_carries_no_count :
    (Talk.start sampleRam).honestRun 40000 refusedTalk = true ∧
      ((Talk.start sampleRam).run refusedTalk).dev.registrations = 1 ∧
      (((Talk.start sampleRam).run refusedTalk).dev.conn 40000).isSome = true ∧
      ¬ ∃ counts : List ℕ,
        ((((Talk.start sampleRam).run refusedTalk).dev.delivered.filterMap Hdr.parse).filter
          (·.srcPort == 40000)).map Hdr.fwdCnt = counts.map UInt32.ofNat ∧
        counts.Pairwise (· ≤ ·) ∧
        ∀ n ∈ counts,
          IsReleased n (((Talk.start sampleRam).run refusedTalk).dev.history 40000) := by
  have hhdrs : ((((Talk.start sampleRam).run refusedTalk).dev.delivered.filterMap
      Hdr.parse).filter (·.srcPort == 40000)).map Hdr.fwdCnt = [0, 3, 0] := by decide +kernel
  refine ⟨by decide +kernel, by decide +kernel, by decide +kernel, ?_⟩
  rintro ⟨counts, hmap, hsort, hcounts⟩
  rw [hhdrs] at hmap
  obtain ⟨a, b, c, rfl⟩ : ∃ a b c, counts = [a, b, c] := by
    have hlen := congrArg List.length hmap
    rw [List.length_map] at hlen
    exact List.length_eq_three.mp hlen.symm
  -- the last count is small, so it is the zero its counter shows
  have hsmall : ∀ k ≤ (((Talk.start sampleRam).run refusedTalk).dev.history 40000).length,
      released ((((Talk.start sampleRam).run refusedTalk).dev.history 40000).take k) ≤ 3 := by
    decide +kernel
  obtain ⟨k, hk, hc, -⟩ := hcounts c (by simp)
  have hc' := hc.trans (hsmall k hk)
  have hbc : b ≤ c := by
    simp only [List.pairwise_cons, List.mem_cons] at hsort
    exact hsort.2.1 c (by simp)
  simp only [List.map_cons, List.map_nil, List.cons.injEq, and_true] at hmap
  have h3 := congrArg UInt32.toNat hmap.2.1
  have h0 := congrArg UInt32.toNat hmap.2.2
  simp only [UInt32.toNat_ofNat'] at h3 h0
  have h3' : b % 4294967296 = 3 := h3.symm
  have h0' : c % 4294967296 = 0 := h0.symm
  omega
