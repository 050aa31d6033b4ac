/-
The virtio-blk device refines a disk.

The device serves the requests of every notify in the order of the avail ring as
a `Disk` serves them, and completes each head once.

* `serve_small` — how long a reply can be;
* `run_served` — every run of register writes and notifies, with the used lengths
  counted modulo 2³²;
* `blk_refines_disk` — from a freshly opened disk the used lengths are exact as
  long as no read inside the capacity has room for 2³² - 1 bytes or more;
* `blk_used_length_wraps` — one that has.
-/
import HviVmm.BlkLoop

open ByteCodec ByteStore

/-- One step of a driver together with the chains it has laid out. -/
structure BlkStep where
  /-- RAM as the driver leaves it. -/
  bytes : ℕ → UInt8
  reg : UInt64
  value : UInt64
  chains : List BlkChain

namespace VirtioBlk

/-- How many heads a register write makes the device serve. -/
def notified (d : VirtioBlk) (mem : GuestRam) (reg : UInt64) : Option ℕ :=
  if Reg.decode reg = some .queueNotify ∧ d.queue.isReady = true then
    (d.queue.pending mem).map UInt16.toNat
  else none

/-- The memory a step starts from. -/
def stepMem (mem : GuestRam) (s : BlkStep) : GuestRam := { mem with bytes := s.bytes }

/-- The device and the memory after a step. -/
def step (d : VirtioBlk) (mem : GuestRam) (s : BlkStep) : VirtioBlk × GuestRam :=
  d.mmioWrite (stepMem mem s) (s.reg, s.value)

/-- The requests of a step. -/
def requests (d : VirtioBlk) (mem : GuestRam) (s : BlkStep) : List DiskRequest :=
  match d.notified (stepMem mem s) s.reg with
  | none => []
  | some _ => s.chains.map (BlkChain.request s.bytes)

/-- The chains of a notify are well-formed. -/
structure NotifyOk (d : VirtioBlk) (mem : GuestRam) (n : ℕ) (chains : List BlkChain) : Prop where
  laid : List.Forall₂ (BlkChain.Laid d.queue mem)
    (d.queue.published mem.bytes n d.queue.lastAvail) chains
  layout : Layout d.queue chains

/-- What a driver finds after a notify of `n` heads: the replies in the chains'
buffers, the heads in the used ring in avail order, each once, and everything else
as it was. -/
structure Completed (d d' : VirtioBlk) (mem mem' : GuestRam) (n : ℕ) (chains : List BlkChain)
    (replies : List DiskReply) : Prop where
  results : List.Forall₂ (ChainResult mem.bytes mem'.bytes) chains replies
  consumed : d'.queue.lastAvail = d.queue.lastAvail + UInt16.ofNat n
  idx : d.queue.usedIdx mem'.bytes = d.queue.usedIdx mem.bytes + UInt16.ofNat n
  elems : d.queue.usedElems mem'.bytes n (d.queue.usedIdx mem.bytes) =
    List.zipWith completion (d.queue.published mem.bytes n d.queue.lastAvail) replies
  frame : AgreeOff (Range d.queue.usedRing ∪ Covered (chains.flatMap BlkChain.room))
    mem.bytes mem'.bytes

/-- Every notify of the run finds well-formed chains. -/
def RunOk (d : VirtioBlk) (mem : GuestRam) : List BlkStep → Prop
  | [] => True
  | s :: steps =>
    (∀ n, d.notified (stepMem mem s) s.reg = some n → d.NotifyOk (stepMem mem s) n s.chains) ∧
      RunOk (d.step mem s).1 (d.step mem s).2 steps

/-- In every state of the run the device holds the disk that has served the
requests so far, and every notify is completed with the disk's replies. -/
def RunServed (rest : List UInt8) (d : VirtioBlk) (mem : GuestRam) (k : Disk) : List BlkStep → Prop
  | [] => d.Holds k rest
  | s :: steps =>
    d.Holds k rest ∧
      (∀ n, d.notified (stepMem mem s) s.reg = some n →
        Completed d (d.step mem s).1 (stepMem mem s) (d.step mem s).2 n s.chains
          (k.serveAll (d.requests mem s)).2) ∧
      RunServed rest (d.step mem s).1 (d.step mem s).2 (k.serveAll (d.requests mem s)).1 steps

/-! ### Steps -/

variable {d : VirtioBlk} {k : Disk} {rest : List UInt8} {mem : GuestRam}
variable {serial : String}

theorem notified_eq_some {reg : UInt64} {n : ℕ} (h : d.notified mem reg = some n) :
    Reg.decode reg = some .queueNotify ∧ d.queue.isReady = true ∧
      ∃ p, d.queue.pending mem = some p ∧ p.toNat = n := by
  unfold notified at h
  rw [Option.ite_none_right_eq_some, Option.map_eq_some_iff] at h
  exact ⟨h.1.1, h.1.2, h.2⟩

theorem pending_le {q : Queue} {p : UInt16} (h : q.pending mem = some p) :
    p.toNat ≤ q.size.toNat := by
  simp only [Queue.pending, Option.bind_eq_bind, Option.bind_eq_some_iff,
    Option.ite_none_right_eq_some, Option.some.injEq] at h
  obtain ⟨idx, -, hle, rfl⟩ := h
  exact UInt16.le_iff_toNat_le.mp hle

theorem holds_transport (h : d.Holds k rest) (t : Transport 1) :
    Holds { d with transport := t } k rest :=
  ⟨h.bytes, h.length, h.addressable, h.faults, h.syncFaults, h.readOnly, h.serial⟩

theorem processQueue_refines (h : d.Holds k rest) (hok : d.transport.ReadyOk mem)
    (hready : d.queue.isReady = true) {p : UInt16} (hp : d.queue.pending mem = some p)
    {chains : List BlkChain} (hn : d.NotifyOk mem p.toNat chains) :
    (d.processQueue mem).1.Holds (k.serveAll (chains.map (BlkChain.request mem.bytes))).1 rest ∧
      (d.processQueue mem).1.transport.ReadyOk mem ∧
      (d.processQueue mem).2.regions = mem.regions ∧
      Completed d (d.processQueue mem).1 mem (d.processQueue mem).2 p.toNat chains
        (k.serveAll (chains.map (BlkChain.request mem.bytes))).2 := by
  have hloop :=
    serveHeads_refines p.toNat d.queue.lastAvail h (hok 0) hready (pending_le hp) hn.laid
    hn.layout
  simp only [processQueue, hready, if_true, hp]
  generalize serveHeads p.toNat d.queue.lastAvail d mem = r at hloop ⊢
  obtain ⟨holds, transport, regions, next, idx, elems, results, frame⟩ := hloop
  generalize hT : (if r.1 ≠ d.queue.lastAvail then _ else _ : Transport 1) = t
  have hqueues : t.queues = (d.transport.setQueue 0 (d.queue.setLastAvail r.1)).queues := by
    rw [← hT, ← transport]
    split <;> rfl
  have hzero : t.queues 0 = d.queue.setLastAvail r.1 := by
    rw [hqueues]
    simp [Transport.setQueue]
  refine ⟨holds_transport holds t, ?_, regions, results, ?_, idx, elems, frame.mono ?_⟩
  · have hset := Transport.setQueue_readyOk hok (i := 0) (Queue.readyOk_setLastAvail (hok 0) r.1)
    intro i
    have := hset i
    rwa [show (d.transport.setQueue 0 (Queue.setLastAvail (d.transport.queues 0) r.1)).queues i =
      t.queues i by rw [hqueues]; rfl] at this
  · rw [queue, hzero, ← next]
    rfl
  · rintro x ((hf | ⟨i, -, hs⟩) | hroom)
    · exact .inl (d.queue.usedIdxField_subset hf)
    · exact .inl (Queue.usedSlot_subset hready _ hs)
    · exact .inr hroom

/-- A register write that makes the device serve nothing. -/
theorem mmioWrite_idle (h : d.Holds k rest) (hok : d.transport.ReadyOk mem) {w : UInt64 × UInt64}
    (hn : d.notified mem w.1 = none) :
    (d.mmioWrite mem w).1.Holds k rest ∧ (d.mmioWrite mem w).1.transport.ReadyOk mem ∧
      (d.mmioWrite mem w).2 = mem := by
  unfold mmioWrite
  split
  · next hdec =>
    simp only [notified, hdec, true_and, ite_eq_right_iff, Option.map_eq_none_iff] at hn
    unfold processQueue
    split
    · next hready =>
      rw [hn hready]
      exact ⟨h, hok, rfl⟩
    · exact ⟨h, hok, rfl⟩
  · exact ⟨holds_transport h _, Transport.writeReg_readyOk hok _ _ _, rfl⟩
  · exact ⟨h, hok, rfl⟩

theorem mmioWrite_notify {w : UInt64 × UInt64} (hdec : Reg.decode w.1 = some .queueNotify) :
    d.mmioWrite mem w = d.processQueue mem := by
  unfold mmioWrite
  rw [hdec]

/-- **One step** of the driver. -/
theorem step_served (h : d.Holds k rest) (hok : d.transport.ReadyOk mem) {s : BlkStep}
    (hs : ∀ n, d.notified (stepMem mem s) s.reg = some n → d.NotifyOk (stepMem mem s) n s.chains) :
    (d.step mem s).1.Holds (k.serveAll (d.requests mem s)).1 rest ∧
      (d.step mem s).1.transport.ReadyOk (d.step mem s).2 ∧
      ∀ n, d.notified (stepMem mem s) s.reg = some n →
        Completed d (d.step mem s).1 (stepMem mem s) (d.step mem s).2 n s.chains
          (k.serveAll (d.requests mem s)).2 := by
  have hok' : d.transport.ReadyOk (stepMem mem s) := fun i => (hok i).congr rfl
  unfold step requests
  cases hn : d.notified (stepMem mem s) s.reg with
  | none =>
    obtain ⟨hholds, hready, hmem⟩ := mmioWrite_idle h hok' (w := (s.reg, s.value)) hn
    rw [hmem]
    exact ⟨hholds, hready, fun n hn' => by cases hn'⟩
  | some n =>
    obtain ⟨hdec, hready, p, hp, hpn⟩ := notified_eq_some hn
    have hnotify := hs n hn
    rw [← hpn] at hnotify
    obtain ⟨hholds, hok'', hregions, hcompleted⟩ := processQueue_refines h hok' hready hp hnotify
    rw [mmioWrite_notify hdec]
    refine ⟨hholds, fun i => (hok'' i).congr hregions, fun n' hn' => ?_⟩
    injection hn' with hn'
    rw [← hn', ← hpn]
    exact hcompleted

/-- **Every run**, with the used lengths counted modulo 2³². -/
theorem run_served (steps : List BlkStep) (h : d.Holds k rest) (hok : d.transport.ReadyOk mem)
    (hrun : d.RunOk mem steps) : RunServed rest d mem k steps := by
  induction steps generalizing d mem k with
  | nil => exact h
  | cons s steps ih =>
    obtain ⟨hs, hrun'⟩ := hrun
    obtain ⟨hholds, hok', hcompleted⟩ := step_served h hok hs
    exact ⟨h, hcompleted, ih hholds hok' hrun'⟩

/-! ### Used lengths -/

/-- The request is not a read inside a disk of `size` bytes that has room for
2³² - 1 bytes or more. -/
def Small (size : ℕ) : DiskRequest → Prop
  | .read sector room => sector * 512 + room ≤ size → room + 1 < 2 ^ 32
  | _ => True

/-- Every request of the run is small. -/
def RunSmall (d : VirtioBlk) (mem : GuestRam) : List BlkStep → Prop
  | [] => True
  | s :: steps =>
    (∀ r ∈ d.requests mem s, Small (d.capacitySectors.toNat * 512) r) ∧
      RunSmall (d.step mem s).1 (d.step mem s).2 steps

/-- The used length of every head the run completes is the number of bytes of its
reply and one for the status. -/
def RunExact (d : VirtioBlk) (mem : GuestRam) (k : Disk) : List BlkStep → Prop
  | [] => True
  | s :: steps =>
    (∀ n, d.notified (stepMem mem s) s.reg = some n →
      (d.queue.usedElems (d.step mem s).2.bytes n (d.queue.usedIdx s.bytes)).map
        (fun e => e.len.toNat) = (k.serveAll (d.requests mem s)).2.map fun r => r.data.length + 1) ∧
      RunExact (d.step mem s).1 (d.step mem s).2 (k.serveAll (d.requests mem s)).1 steps

theorem serve_small {r : DiskRequest} (hr : Small k.data.length r)
    (hserial : k.serial.length = serialLen) : (k.serve r).2.data.length + 1 < 2 ^ 32 := by
  have hlen : serialLen = 20 := rfl
  cases r with
  | read sector room =>
    by_cases h : sector * 512 + room ≤ k.data.length
    · have := hr h
      simp [Disk.serve_read_ok h]
      omega
    · simp [Disk.serve_read_refused h]
  | write sector data =>
    by_cases h : k.readOnly = false ∧ sector * 512 + data.length ≤ k.data.length
    · simp [Disk.serve_write_ok h.1 h.2]
    · simp [Disk.serve_write_refused h]
  | flush =>
    simp only [Disk.serve]
    split
    · simp
    · split <;> simp
  | getId room =>
    simp [Disk.serve]
    omega
  | other => simp [Disk.serve]

theorem serveAll_small {rs : List DiskRequest} (hr : ∀ r ∈ rs, Small k.data.length r)
    (hserial : k.serial.length = serialLen) :
    ∀ a ∈ (k.serveAll rs).2, a.data.length + 1 < 2 ^ 32 := by
  induction rs generalizing k with
  | nil => exact fun a ha => absurd ha (by simp [Disk.serveAll])
  | cons r rs ih =>
    obtain ⟨hlen, hser⟩ := k.serve_keeps r
    intro a ha
    rw [Disk.serveAll] at ha
    rcases List.mem_cons.mp ha with rfl | ha
    · exact serve_small (hr r (by simp)) hserial
    · refine ih (fun r' hr' => ?_) (by rw [hser, hserial]) a ha
      rw [hlen]
      exact hr r' (by simp [hr'])

theorem map_len_completion {heads : List UInt16} {replies : List DiskReply}
    (hlen : heads.length = replies.length) (hsmall : ∀ a ∈ replies, a.data.length + 1 < 2 ^ 32) :
    (List.zipWith completion heads replies).map (fun e => e.len.toNat) =
      replies.map fun r => r.data.length + 1 := by
  induction replies generalizing heads with
  | nil => simp
  | cons r rs ih =>
    cases heads with
    | nil => cases hlen
    | cons h hs =>
      have hr := hsmall r (by simp)
      rw [List.zipWith_cons_cons, List.map_cons, List.map_cons,
        ih (by simpa using hlen) fun a ha => hsmall a (by simp [ha])]
      simp only [completion, UInt32.toNat_ofNat', Nat.mod_eq_of_lt hr]

theorem Holds.serial_length (h : d.Holds k rest) : k.serial.length = serialLen := by
  rw [← h.serial]
  simp

/-- **Exact lengths** in every run whose requests are small. -/
theorem run_exact (steps : List BlkStep) (h : d.Holds k rest) (hok : d.transport.ReadyOk mem)
    (hrun : d.RunOk mem steps) (hsmall : d.RunSmall mem steps) : RunExact d mem k steps := by
  induction steps generalizing d mem k with
  | nil => exact trivial
  | cons s steps ih =>
    obtain ⟨hs, hrun'⟩ := hrun
    obtain ⟨hsm, hsmall'⟩ := hsmall
    obtain ⟨hholds, hok', hcompleted⟩ := step_served h hok hs
    refine ⟨fun n hn => ?_, ih hholds hok' hrun' hsmall'⟩
    have hc := hcompleted n hn
    have hlen : (d.queue.published s.bytes n d.queue.lastAvail).length =
        (k.serveAll (d.requests mem s)).2.length := by
      rw [← hc.results.length_eq]
      exact (hs n hn).laid.length_eq
    have helems : d.queue.usedElems (d.step mem s).2.bytes n (d.queue.usedIdx s.bytes) =
        List.zipWith completion (d.queue.published s.bytes n d.queue.lastAvail)
          (k.serveAll (d.requests mem s)).2 := hc.elems
    rw [helems]
    rw [← h.length] at hsm
    exact map_len_completion hlen (serveAll_small hsm h.serial_length)

/-! ### A freshly opened disk -/

/-- What the file holds past the capacity. -/
def tailBytes (d : VirtioBlk) : List UInt8 := d.file.bytes.drop (d.capacitySectors.toNat * 512)

theorem openAs_fields {file : HostFile} {ro : Bool} (hopen : openAs file ro serial = some d) :
    d.capacitySectors = UInt64.ofNat file.bytes.length / sectorLen ∧ d.transport = {} := by
  unfold openAs at hopen
  simp only [gt_iff_lt, Option.ite_none_left_eq_some, Option.some.injEq] at hopen
  rw [← hopen.2]
  exact ⟨rfl, rfl⟩

theorem openAs_isSome (file : HostFile) (ro : Bool)
    (h : serial.toUTF8.data.toList.length ≤ serialLen) : ∃ d, openAs file ro serial = some d :=
  ⟨_, if_neg (Nat.not_lt.mpr h)⟩

theorem openAs_holds {file : HostFile} {ro : Bool} (hopen : openAs file ro serial = some d)
    (hfaults : file.faults = []) : d.Holds d.disk d.tailBytes := by
  obtain ⟨hfits, hfile, -⟩ := openAs_fits hopen
  obtain ⟨hcap, -⟩ := openAs_fields hopen
  have hsec : sectorLen.toNat = 512 := rfl
  refine ⟨(List.take_append_drop _ _).symm, ?_, ?_, by rw [hfile, hfaults], rfl, rfl, rfl⟩
  · rw [disk, List.length_take]
    exact Nat.min_eq_left hfits
  · rw [hcap, UInt64.toNat_div, UInt64.toNat_ofNat', hsec]
    omega

end VirtioBlk

/-- **virtio-blk refines a disk.**  From a freshly opened file whose positioned I/O
does not fail, in every run of register writes and notifies whose chains are
well-formed and whose requests are small: in every state the file is the disk that
has served the requests so far, every notify leaves the disk's replies in the
chains' buffers and completes the heads once each in avail order, and every used
length is the reply's length and one. -/
theorem blk_refines_disk (file : HostFile) (ro : Bool) (serial : String) (d : VirtioBlk)
    (hopen : VirtioBlk.openAs file ro serial = some d) (hfaults : file.faults = [])
    (mem : GuestRam) (steps : List BlkStep) (hrun : d.RunOk mem steps)
    (hsmall : d.RunSmall mem steps) :
    VirtioBlk.RunServed d.tailBytes d mem d.disk steps ∧ VirtioBlk.RunExact d mem d.disk steps := by
  have hholds := VirtioBlk.openAs_holds hopen hfaults
  obtain ⟨-, htrans⟩ := VirtioBlk.openAs_fields hopen
  have hok : d.transport.ReadyOk mem := by
    rw [htrans]
    exact Transport.readyOk_default mem
  exact ⟨VirtioBlk.run_served steps hholds hok hrun, VirtioBlk.run_exact steps hholds hok hrun
    hsmall⟩

/-! ### A driver that sets the queue up and notifies -/

namespace VirtioBlk

/-- Register writes over RAM holding `m`. -/
def setup (m : ℕ → UInt8) (writes : List (UInt64 × UInt64)) : List BlkStep :=
  writes.map fun w => ⟨m, w.1, w.2, []⟩

/-- The device after register writes that notify nothing. -/
def programmed (d : VirtioBlk) (mem : GuestRam) : List (UInt64 × UInt64) → VirtioBlk
  | [] => d
  | w :: writes =>
    programmed { d with transport := DeviceKind.blk.mmioWrite mem d.transport w } mem writes

/-- Register writes other than a notify program the queue and serve nothing. -/
theorem setup_step (d : VirtioBlk) (mem : GuestRam) {w : UInt64 × UInt64}
    (hw : Reg.decode w.1 ≠ some .queueNotify) :
    d.notified mem w.1 = none ∧ d.requests mem ⟨mem.bytes, w.1, w.2, []⟩ = [] ∧
      d.step mem ⟨mem.bytes, w.1, w.2, []⟩ =
        ({ d with transport := DeviceKind.blk.mmioWrite mem d.transport w }, mem) := by
  have hnone : d.notified mem w.1 = none := if_neg fun hc => hw hc.1
  refine ⟨hnone, ?_, ?_⟩
  · have hnone' : d.notified (stepMem mem ⟨mem.bytes, w.1, w.2, []⟩) w.1 = none := hnone
    rw [requests, hnone']
  · change d.mmioWrite mem w = _
    unfold mmioWrite DeviceKind.mmioWrite
    cases hdec : Reg.decode w.1 with
    | none => rfl
    | some r =>
      cases r with
      | queueNotify => exact absurd hdec hw
      | _ => rfl

theorem setup_run (d : VirtioBlk) (mem : GuestRam) (k : Disk) {writes : List (UInt64 × UInt64)}
    (hw : ∀ w ∈ writes, Reg.decode w.1 ≠ some .queueNotify) (steps : List BlkStep) :
    (d.RunOk mem (setup mem.bytes writes ++ steps) ↔ (d.programmed mem writes).RunOk mem steps) ∧
    (d.RunSmall mem (setup mem.bytes writes ++ steps) ↔
      (d.programmed mem writes).RunSmall mem steps) ∧
    (d.RunExact mem k (setup mem.bytes writes ++ steps) ↔
      (d.programmed mem writes).RunExact mem k steps) := by
  induction writes generalizing d with
  | nil => exact ⟨Iff.rfl, Iff.rfl, Iff.rfl⟩
  | cons w ws ih =>
    obtain ⟨hnone, hreq, hstep⟩ := setup_step d mem (hw w (by simp))
    have hnone' : d.notified (stepMem mem ⟨mem.bytes, w.1, w.2, []⟩) w.1 = none := hnone
    have ih' := ih { d with transport := DeviceKind.blk.mmioWrite mem d.transport w }
      fun w' hw' => hw w' (by simp [hw'])
    have hcons : setup mem.bytes (w :: ws) ++ steps =
        ⟨mem.bytes, w.1, w.2, []⟩ :: (setup mem.bytes ws ++ steps) := rfl
    rw [hcons, RunOk, RunSmall, RunExact, hnone', hreq, hstep]
    simp only [reduceCtorEq, false_implies, implies_true, true_and, List.not_mem_nil]
    exact ih'

end VirtioBlk

/-- Eight gigabytes of RAM at 1 GiB. -/
def bigRam (m : ℕ → UInt8) : GuestRam where
  regions := [⟨0x40000000, 0x200000000⟩]
  bytes := m
  fits := by decide
  sorted := by decide

/-- A read into two buffers of `len` bytes each. -/
def sampleChain (len : UInt32) : BlkChain where
  header := ⟨0x40003000, 16, 1, 1⟩
  data := [⟨0x50000000, len, 3, 2⟩, ⟨0xd0000000, len, 3, 3⟩]
  status := ⟨0x40003010, 1, 2, 0⟩

/-- RAM with the chain in the descriptor table and its head in the avail ring. -/
def sampleImage (len : UInt32) : ℕ → UInt8 :=
  let descBytes := fun d : Desc =>
    leBytes 8 d.addr.toNat ++ leBytes 4 d.len.toNat ++ leBytes 2 d.flags.toNat ++
      leBytes 2 d.next.toNat
  poke (poke (fun _ => 0) 0x40000000 ((sampleChain len).descs.flatMap descBytes)) 0x40001000
    [0, 0, 1, 0, 0, 0]

/-- The queue is set up and notified once. -/
def sampleSteps (len : UInt32) : List BlkStep :=
  VirtioBlk.setup (sampleImage len) sampleWrites ++ [⟨sampleImage len, 0x50, 0, [sampleChain len]⟩]

theorem sampleWrites_setup : ∀ w ∈ sampleWrites, Reg.decode w.1 ≠ some .queueNotify := by
  have hall : sampleWrites.all (fun w => Reg.decode w.1 != some .queueNotify) = true := by
    decide
  intro w hw
  simpa using List.all_eq_true.mp hall w hw

/-- Programming a queue looks at where RAM is, not at what it holds. -/
theorem blk_program_congr (m m' : ℕ → UInt8) (writes : List (UInt64 × UInt64)) :
    DeviceKind.blk.program (bigRam m) writes = DeviceKind.blk.program (bigRam m') writes := rfl

theorem programmed_queue {d : VirtioBlk} (hd : d.transport = {}) (m : ℕ → UInt8) :
    (d.programmed (bigRam m) sampleWrites).queue = sampleQueue := by
  have htrans : (d.programmed (bigRam m) sampleWrites).transport =
      sampleWrites.foldl (DeviceKind.blk.mmioWrite (bigRam m)) d.transport := rfl
  have hclosed : (DeviceKind.blk.program (bigRam fun _ => 0) sampleWrites).queues (0 : Fin 1) =
      sampleQueue := rfl
  rw [VirtioBlk.queue, htrans, hd, ← hclosed, blk_program_congr (fun _ => 0) m]
  rfl

/-- What has to be checked of a buffer length for the run to be well-formed: the
chain is read back from the table, and its buffers lie in RAM, clear of the rings
and of each other. -/
structure SampleOk (len : UInt32) : Prop where
  pending : sampleQueue.pending (bigRam (sampleImage len)) = some 1
  published : sampleQueue.published (sampleImage len) 1 0 = [0]
  chain : sampleQueue.chain (bigRam (sampleImage len)) 0 = ((sampleChain len).descs, .done)
  inRam : ∀ e ∈ (sampleChain len).descs,
    (bigRam (sampleImage len)).contains e.addr e.len.toNat = true
  apart : (sampleQueue.usedRing :: sampleQueue.descTable :: sampleQueue.availRing ::
    (sampleChain len).buffers).Pairwise fun s t => s.1 + s.2 ≤ t.1 ∨ t.1 + t.2 ≤ s.1

namespace SampleOk

variable {d : VirtioBlk} {len : UInt32}

theorem header_isRead : (sampleChain len).header.isWrite = false := by
  change Desc.isWrite ⟨0x40003000, 16, 1, 1⟩ = false
  decide +kernel

theorem status_isWrite : (sampleChain len).status.isWrite = true := by
  change Desc.isWrite ⟨0x40003010, 1, 2, 0⟩ = true
  decide +kernel

theorem notifyOk (h : SampleOk len) (hd : d.queue = sampleQueue) :
    d.NotifyOk (bigRam (sampleImage len)) 1 [sampleChain len] := by
  have hapart := h.apart.imp fun h => apart_of_le h
  rw [List.pairwise_cons, List.pairwise_cons, List.pairwise_cons] at hapart
  obtain ⟨hused, hdesc, havail, hbufs⟩ := hapart
  have hflat : [sampleChain len].flatMap BlkChain.buffers = (sampleChain len).buffers := by simp
  have hlaid : BlkChain.Laid sampleQueue (bigRam (sampleImage len)) 0 (sampleChain len) :=
    ⟨h.chain, ⟨header_isRead, rfl⟩, ⟨status_isWrite, rfl⟩, h.inRam⟩
  have hpub : d.queue.published (bigRam (sampleImage len)).bytes 1 d.queue.lastAvail = [0] := by
    rw [hd]
    exact h.published
  refine ⟨?_, ?_, ?_, ?_⟩
  · rw [hpub, hd]
    exact .cons hlaid .nil
  · rw [hflat]
    exact hbufs
  · rw [hflat, hd]
    intro b hb
    exact ⟨(hdesc b (by simp [hb])).symm, (havail b hb).symm, (hused b (by simp [hb])).symm⟩
  · rw [hd]
    exact ⟨hused _ (by simp), hused _ (by simp)⟩

theorem notified (h : SampleOk len) (hd : d.queue = sampleQueue) :
    d.notified (bigRam (sampleImage len)) 0x50 = some 1 := by
  rw [VirtioBlk.notified, hd, h.pending]
  rfl

theorem requests (h : SampleOk len) (hd : d.queue = sampleQueue) :
    d.requests (bigRam (sampleImage len)) ⟨sampleImage len, 0x50, 0, [sampleChain len]⟩ =
      [(sampleChain len).request (sampleImage len)] := by
  have hn : d.notified (VirtioBlk.stepMem (bigRam (sampleImage len))
      ⟨sampleImage len, 0x50, 0, [sampleChain len]⟩) 0x50 = some 1 := h.notified hd
  rw [VirtioBlk.requests, hn]
  rfl

theorem runOk (h : SampleOk len) (hd : d.transport = {}) :
    d.RunOk (bigRam (sampleImage len)) (sampleSteps len) := by
  have hq := programmed_queue hd (sampleImage len)
  refine (VirtioBlk.setup_run d (bigRam (sampleImage len)) d.disk sampleWrites_setup _).1.mpr
    ⟨fun n hn => ?_, trivial⟩
  rw [show n = 1 from Option.some.inj (hn.symm.trans (h.notified hq))]
  exact h.notifyOk hq

theorem runSmall (h : SampleOk len) (hd : d.transport = {}) {r : DiskRequest}
    (hr : (sampleChain len).request (sampleImage len) = r)
    (hs : ∀ size, VirtioBlk.Small size r) :
    d.RunSmall (bigRam (sampleImage len)) (sampleSteps len) := by
  have hq := programmed_queue hd (sampleImage len)
  have hlast : (d.programmed (bigRam (sampleImage len)) sampleWrites).RunSmall
      (bigRam (sampleImage len)) [⟨sampleImage len, 0x50, 0, [sampleChain len]⟩] := by
    rw [VirtioBlk.RunSmall, h.requests hq, hr]
    refine ⟨fun r' hr' => ?_, trivial⟩
    rw [List.mem_singleton.mp hr']
    exact hs _
  exact (VirtioBlk.setup_run d (bigRam (sampleImage len)) d.disk sampleWrites_setup _).2.1.mpr hlast

/-- The one head the run completes has the used length the property asks for. -/
theorem runExact (h : SampleOk len) (hd : d.transport = {}) {k : Disk} {r : DiskRequest}
    (hr : (sampleChain len).request (sampleImage len) = r)
    (hrun : d.RunExact (bigRam (sampleImage len)) k (sampleSteps len)) :
    (k.serve r).2.data.length + 1 < 2 ^ 32 := by
  have hq := programmed_queue hd (sampleImage len)
  have hlast :=
    (VirtioBlk.setup_run d (bigRam (sampleImage len)) k sampleWrites_setup _).2.2.mp hrun
  have helems := hlast.1 1 (h.notified hq)
  rw [h.requests hq, hr] at helems
  simp only [Queue.usedElems, Disk.serveAll, List.map_cons, List.map_nil, List.cons.injEq,
    and_true] at helems
  rw [← helems]
  exact UInt32.toNat_lt _

end SampleOk

/-- A read of 512 bytes in two halves from a disk of two sectors. -/
theorem blk_refines_disk_sample :
    ∃ d, VirtioBlk.openAs ⟨List.replicate 1024 7, [], []⟩ false "root" = some d ∧
      d.RunExact (bigRam (sampleImage 256)) d.disk (sampleSteps 256) := by
  obtain ⟨d, hopen⟩ := VirtioBlk.openAs_isSome ⟨List.replicate 1024 7, [], []⟩ false
    (show "root".toUTF8.data.toList.length ≤ serialLen by decide)
  have hok : SampleOk 256 := ⟨by decide, by decide, by decide, by decide, by decide⟩
  have hreq : (sampleChain 256).request (sampleImage 256) = .read 0 512 := by decide +kernel
  obtain ⟨-, htrans⟩ := VirtioBlk.openAs_fields hopen
  refine ⟨d, hopen, ?_⟩
  exact (blk_refines_disk _ false "root" d hopen rfl _ _ (hok.runOk htrans)
    (hok.runSmall htrans hreq fun _ _ => by decide)).2

theorem used_length_wraps {file : HostFile} (hlen : file.bytes.length = 2 ^ 32)
    (hfaults : file.faults = []) :
    ∃ d, VirtioBlk.openAs file false "root" = some d ∧
      d.RunOk (bigRam (sampleImage 0x80000000)) (sampleSteps 0x80000000) ∧
      ¬ d.RunExact (bigRam (sampleImage 0x80000000)) d.disk (sampleSteps 0x80000000) := by
  obtain ⟨d, hopen⟩ := VirtioBlk.openAs_isSome file false
    (show "root".toUTF8.data.toList.length ≤ serialLen by decide)
  have hok : SampleOk 0x80000000 := ⟨by decide, by decide, by decide, by decide, by decide⟩
  have hreq : (sampleChain 0x80000000).request (sampleImage 0x80000000) = .read 0 (2 ^ 32) := by
    decide +kernel
  obtain ⟨hcap, htrans⟩ := VirtioBlk.openAs_fields hopen
  refine ⟨d, hopen, hok.runOk htrans, fun hrun => ?_⟩
  have hdata := (VirtioBlk.openAs_holds hopen hfaults).length
  have hsize : d.capacitySectors.toNat * 512 = 2 ^ 32 := by
    rw [hcap, hlen]
    decide +kernel
  rw [hsize] at hdata
  have hlt := hok.runExact htrans hreq hrun
  rw [Disk.serve_read_ok (by omega)] at hlt
  simp only [List.length_take, List.length_drop, hdata] at hlt
  omega

/-- **The used length wraps**: a read of 2³² bytes into two buffers of 2³¹, on a
disk that holds them, is completed, but not with the used length 2³² + 1. -/
theorem blk_used_length_wraps :
    ∃ d, VirtioBlk.openAs ⟨List.replicate (2 ^ 32) 7, [], []⟩ false "root" = some d ∧
      d.RunOk (bigRam (sampleImage 0x80000000)) (sampleSteps 0x80000000) ∧
      ¬ d.RunExact (bigRam (sampleImage 0x80000000)) d.disk (sampleSteps 0x80000000) :=
  used_length_wraps List.length_replicate rfl
