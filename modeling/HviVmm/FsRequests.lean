/-
The requests of a virtio-fs device, one by one.

What the device does under its lock is a sequence of requests, repetitions of parked locks
and resets, `FsOp`.  Between two of them the driver writes to guest memory and to the registers,
`FsGuest.Outside`.

* `FsOp.serve_ensures` — whatever the request, every call is one the export allows, and the
  device is left in order;
* `FsOp.serve_rejecting` — a request that may change something first drops what the
  workers prepared, and asks them for nothing after that.
-/
import HviVmm.FsGather
import HviVmm.FsServeKeep

open CallPrograms Fuse

/-- One thing the device does under its lock. -/
inductive FsOp where
  /-- The chain that starts at `head` is served and completed. -/
  | request (i : Fin 2) (head : UInt16)
  /-- The parked SETLKW requests are repeated. -/
  | retry
  | reset
  deriving DecidableEq

/-- What it consists of. -/
def FsOp.serve : FsOp → FsGuest.Serve Unit
  | .request i head => do
    match ← FsGuest.handleChain i head with
    | some used => FsGuest.pushUsed i head used
    | none => pure ()
  | .retry => do
    let _ ← FsGuest.retryLockWaiters
  | .reset => FsGuest.onDev VirtioFs.reset

namespace FsGuest

open Proc VirtioFs

/-- What happens to the device between two operations: the driver stores to guest memory and to
the registers, and the queues are accounted for. -/
def Outside (g g' : FsGuest) : Prop :=
  ∃ transport notified, g'.dev = { g.dev with transport, notified }

/-- A request that `request_is_read_only` rejects, or a direct WRITE. -/
def Rejects (g : FsGuest) : FsOp → Prop
  | .request i head =>
    g.accepts i head = true ∧
      ∃ header, g.askedHeader i head = some header ∧
        ((requestOp header = some .write ∧ g.dev.writable = true) ∨
          ∃ raw, g.askedWhole i head = some raw ∧
            requestIsReadOnly ((getU32 raw 4).getD 0) (raw.drop inHeaderLen) = false)
  | _ => False

section

variable {root : PathBuf} {writable : Bool} {live : ℕ → Prop} {g g' : FsGuest}

theorem Outside.good (h : Outside g g') (hg : g.dev.Good root writable live) :
    g'.dev.Good root writable live := by
  obtain ⟨transport, notified, hdev⟩ := h
  rw [hdev]
  exact { hg with }

end

end FsGuest

/-- What any request may do: change the tree if the export is writable, work with what the
workers began when `live` says, sync the volume and leave a lock to be parked. -/
def Kind.any (writable : Bool) (live : ℕ → Prop) : Kind where
  change := writable
  prepared := true
  sync := true
  live := live

/-- The same without the workers. -/
def Kind.alone (writable : Bool) : Kind where
  change := writable
  sync := true
  live := fun _ => False

namespace FsOp

open Proc VirtioFs FsGuest

variable {root : PathBuf} {writable : Bool} {k : Kind} {live : ℕ → Prop} {g : FsGuest}
variable {s : VirtioFs} {raw header : Bytes} {input : List Seg}

theorem serves_any (op : Option Opcode) (payload : Bytes) :
    VirtioFs.Serves writable (Kind.any writable live) op payload :=
  ⟨fun _ _ h => h, fun _ => rfl, fun _ => ⟨rfl, rfl⟩, rfl⟩

theorem complete_keeps (i : Fin 2) (head : UInt16) (used : Option UInt32) :
    Keeps (FsGuest.rules root writable k) (match used with
      | some used => FsGuest.pushUsed i head used
      | none => pure () : Serve Unit) fun _ => True := by
  cases used with
  | some used => exact pushUsed_keeps i head used
  | none => exact .pure trivial

/-- What an operation is of a kind by: the request it serves, or the tmpfiles it removes. -/
def OfKind (writable : Bool) (k : Kind) (g : FsGuest) : FsOp → Prop
  | .request i head =>
    g.accepts i head = true →
      (∀ header, g.askedHeader i head = some header →
        requestOp header = some .write → writable = true → k.change = true) ∧
      ∀ raw, g.askedWhole i head = some raw → Admits writable k g.dev raw
  | .retry => True
  | .reset => ∀ fh handle, g.dev.handles.lookup fh = some handle →
      handle.temporaryPath.isSome = true → k.change = true

/-- **An operation of a kind** makes the calls the kind permits, and leaves the device in order. -/
theorem serve_at {op : FsOp} (hk : k.makes = true) (hg : (FsGuest.rules root writable k).good g)
    (hop : OfKind writable k g op) :
    KeepsAt (FsGuest.rules root writable k) g op.serve fun _ _ => True := by
  cases op with
  | request i head =>
    have hchain : KeepsAt (FsGuest.rules root writable k) g (handleChain i head) fun _ _ => True :=
      handleChain_at hg fun haccepts output maxOut =>
        handleFuseDesc_at hg output maxOut (hop haccepts).1 (hop haccepts).2
    exact hchain.bind fun used _ hg₁ _ _ => (complete_keeps i head used).keepsAt hg₁
  | retry =>
    have hkeeps : Keeps (FsGuest.rules root writable k) FsOp.retry.serve fun _ => True :=
      .bind retryLockWaiters_keeps fun _ _ => .pure trivial
    exact hkeeps.keepsAt hg
  | reset => exact onDev_at (reset_at hk hg hop)

/-- What any request may do puts no condition on it. -/
theorem ofKind_any (g : FsGuest) (op : FsOp) (hg : g.dev.Good root writable live) :
    OfKind writable (Kind.any writable live) g op := by
  -- a tmpfile is made on a writable export only
  have htmp : ∀ fh handle, g.dev.handles.lookup fh = some handle →
      handle.temporaryPath.isSome = true → writable = true := by
    intro fh handle hlookup hsome
    obtain ⟨p, hp⟩ := Option.isSome_iff_exists.mp hsome
    exact (hg.temporaries fh handle hlookup p hp).2
  cases op with
  | request i head =>
    refine fun _ => ⟨fun _ _ _ h => h, fun raw _ => .inr ⟨serves_any _ _, meets_ungated rfl ?_⟩⟩
    exact fun _ fh handle _ => htmp fh handle
  | retry => trivial
  | reset => exact htmp

theorem good_any (hs : s.Good root writable live) :
    (VirtioFs.rules root writable (Kind.any writable live)).good s :=
  good_of_files (fun _ => trivial) hs Bool.noConfusion

/-- **Every operation keeps inside the export**, and leaves the device in order. -/
theorem serve_ensures (op : FsOp) (hg : g.dev.Good root writable live) :
    (op.serve g).Ensures (Kind.any writable live).Fair (Kind.any writable live).Permits
      fun r => r.2.dev.Good root writable live :=
  (serve_at rfl (good_any hg) (ofKind_any g op hg)).imp fun _ hr => hr.1.1

/-! ### Requests that drop what was prepared -/

theorem serves_alone {op : Option Opcode} (payload : Bytes)
    (hop : op ≠ some .readdir ∧ op ≠ some .readdirplus) :
    VirtioFs.Serves writable (Kind.alone writable) op payload where
  change _ _ h := h
  prepared h := absurd h (not_or.mpr hop)
  sync _ := ⟨rfl, rfl⟩

/-- A request that is rejected does not list a directory, read a file or let go of one. -/
theorem not_readOnly
    (h : requestIsReadOnly ((getU32 raw 4).getD 0) (raw.drop inHeaderLen) = false) :
    requestOp raw ≠ some .readdir ∧ requestOp raw ≠ some .readdirplus ∧
      requestOp raw ≠ some .read ∧ requestOp raw ≠ some .release := by
  unfold requestIsReadOnly at h
  refine ⟨?_, ?_, ?_, ?_⟩ <;> intro hop <;> simp [show Opcode.decode _ = _ from hop] at h

/-- What was prepared is dropped by one call, and nothing of it is left in a listing. -/
theorem dropPrepared_starts (hs : s.Good root writable live) :
    (dropPrepared s).Starts .raInvalidate (Kind.alone writable).Fair (Kind.alone writable).Permits
      fun r => r.1 = .ok () ∧ (VirtioFs.rules root writable (Kind.alone writable)).good r.2 := by
  refine ⟨rfl, fun _ => ⟨rfl, good_of_files (fun _ => trivial) ?_ Bool.noConfusion⟩⟩
  refine ⟨hs.1, hs.2, hs.3, hs.4, hs.5, hs.6, hs.7, ?_⟩
  intro node listing hlookup
  change s.dropPreparedStats.fh0Listings.lookup node = some listing at hlookup
  rw [dropPreparedStats, HashMap.lookup_mapVal, Option.map_eq_some_iff] at hlookup
  obtain ⟨listing, hold, rfl⟩ := hlookup
  exact ⟨(hs.listings node listing hold).1, fun hne => absurd rfl hne⟩

theorem handleFuse_starts (hs : s.Good root writable live) (maxOut : ℕ)
    (h : requestIsReadOnly ((getU32 raw 4).getD 0) (raw.drop inHeaderLen) = false) :
    (handleFuse raw maxOut s).Starts .raInvalidate (Kind.alone writable).Fair
      (Kind.alone writable).Permits
      fun r => (VirtioFs.rules root writable (Kind.alone writable)).good r.2 := by
  obtain ⟨hreaddir, hplus, -, hrelease⟩ := not_readOnly h
  have heq : handleFuse raw maxOut s =
      (dropPrepared s).bind (Proc.next fun _ => answerRequest raw maxOut) := by
    unfold handleFuse
    rw [h]
    rfl
  rw [heq]
  refine (dropPrepared_starts hs).bind ?_
  rintro ⟨r, s₁⟩ ⟨hr, hs₁⟩
  obtain rfl : r = .ok () := hr
  have hanswer : KeepsAt (VirtioFs.rules root writable (Kind.alone writable)) s₁ _ _ :=
    answerRequest_keeps raw maxOut (serves_alone _ ⟨hreaddir, hplus⟩) s₁ hs₁
      (meets_ungated rfl fun hop => absurd hop hrelease)
  exact hanswer.imp fun r hr => hr.1

theorem onDev_starts {α : Type} {m : Fs α} {op : HostOp} {Q : Except Errno α × VirtioFs → Prop}
    (h : (m g.dev).Starts op k.Fair k.Permits Q) :
    (onDev m g).Starts op k.Fair k.Permits fun r => Q (r.1, r.2.dev) ∧ r.2.mem = g.mem :=
  h.bind fun _ hr => ⟨hr, rfl⟩

theorem handleFuseGathered_starts (hg : g.dev.Good root writable live) (unique : UInt64)
    (maxOut : ℕ) (hraw : gatherBytes g.mem input 0 (totalLen input) = some raw)
    (h : requestIsReadOnly ((getU32 raw 4).getD 0) (raw.drop inHeaderLen) = false) :
    (handleFuseGathered unique input maxOut g).Starts .raInvalidate (Kind.alone writable).Fair
      (Kind.alone writable).Permits
      fun r => (FsGuest.rules root writable (Kind.alone writable)).good r.2 := by
  rw [handleFuseGathered_eq unique maxOut hraw]
  refine (onDev_starts (handleFuse_starts hg maxOut h)).bind ?_
  rintro ⟨r, g₁⟩ ⟨hgood, -⟩
  cases r with
  | error e => exact hgood
  | ok response => exact hgood

theorem writeDirect_starts (hg : g.dev.Good root writable live) (hw : writable = true)
    (node unique : UInt64) (declared : ℕ) (input : List Seg) :
    (writeDirect node unique declared input g).Starts .raInvalidate (Kind.alone writable).Fair
      (Kind.alone writable).Permits
      fun r => (memRules root writable (Kind.alone writable) g.mem).good r.2 := by
  have heq : writeDirect node unique declared input g =
      (if !g.dev.writable then pure none else do
        onDev (Proc.modify fun s => { s with dirty := true })
        onDev VirtioFs.dropPrepared
        writeFrom node unique declared input : Serve (Option FsReply)) g := rfl
  rw [heq, hg.writable_eq, hw]
  -- the export is marked dirty before the first call
  have hdirty : ({ g.dev with dirty := true } : VirtioFs).Good root true live := by
    rw [hw] at hg
    exact { hg with }
  have hdrop : (onDev VirtioFs.dropPrepared { g with dev := { g.dev with dirty := true } }).Starts
      .raInvalidate _ _ _ := onDev_starts (dropPrepared_starts hdirty)
  refine hdrop.bind ?_
  rintro ⟨r, g₁⟩ ⟨⟨hr, hgood⟩, hmem⟩
  obtain rfl : r = .ok () := hr
  exact (writeFrom_keeps rfl node unique declared input g₁ ⟨hgood, hmem⟩).imp fun r hr => hr.1

theorem requestOp_header {mem : GuestRam} (hlen : inHeaderLen ≤ totalLen input)
    (hheader : gatherBytes mem input 0 inHeaderLen = some header)
    (hraw : gatherBytes mem input 0 (totalLen input) = some raw) :
    requestOp header = requestOp raw := by
  rw [gatherBytes_take hlen hheader hraw, requestOp, requestOp, getU32_take (by decide)]

/-- A direct WRITE, and the buffered one it may turn into. -/
theorem directWrite_starts (hg : g.dev.Good root writable live) (output : List Seg) (maxOut : ℕ)
    (hlen : inHeaderLen ≤ totalLen input)
    (hheader : gatherBytes g.mem input 0 inHeaderLen = some header)
    (hop : requestOp header = some .write) (hw : writable = true) :
    (handleFuseDesc input output maxOut g).Starts .raInvalidate (Kind.alone writable).Fair
      (Kind.alone writable).Permits
      fun r => (FsGuest.rules root writable (Kind.alone writable)).good r.2 := by
  rw [handleFuseDesc_eq output maxOut hheader, tryDirect_write output maxOut hop]
  refine (writeDirect_starts hg hw _ _ _ _).bind ?_
  rintro ⟨r, g₁⟩ hgood
  match r with
  | .error e => exact hgood.1
  | .ok (some reply) => exact hgood.1
  | .ok none =>
    -- the request is still a WRITE when it is gathered whole
    refine (handleFuseGathered_at hgood.1 _ input maxOut ?_).imp fun r hr => hr.1
    intro raw hraw
    rw [hgood.2] at hraw
    have hwrite : requestOp raw = some .write :=
      (requestOp_header hlen hheader hraw).symm.trans hop
    refine .inr ⟨serves_alone _ ?_, meets_ungated rfl fun hrelease => ?_⟩
    · rw [hwrite]
      decide
    · cases hwrite.symm.trans hrelease

/-- A request that is rejected, on the buffered path. -/
theorem rejected_starts (hg : g.dev.Good root writable live) (output : List Seg) (maxOut : ℕ)
    (hlen : inHeaderLen ≤ totalLen input)
    (hheader : gatherBytes g.mem input 0 inHeaderLen = some header)
    (hraw : gatherBytes g.mem input 0 (totalLen input) = some raw)
    (h : requestIsReadOnly ((getU32 raw 4).getD 0) (raw.drop inHeaderLen) = false) :
    (handleFuseDesc input output maxOut g).Starts .raInvalidate (Kind.alone writable).Fair
      (Kind.alone writable).Permits
      fun r => (FsGuest.rules root writable (Kind.alone writable)).good r.2 := by
  obtain ⟨-, -, hread, -⟩ := not_readOnly h
  have hop := requestOp_header hlen hheader hraw
  by_cases hwrite : requestOp header = some .write ∧ writable = true
  · exact directWrite_starts hg output maxOut hlen hheader hwrite.1 hwrite.2
  · -- neither direct path takes the request, and the state is as it was
    have hrefused : requestOp header = some .write → g.dev.writable = false := by
      intro hdecode
      rw [hg.writable_eq]
      exact Bool.eq_false_iff.mpr fun hw => hwrite ⟨hdecode, hw⟩
    rw [handleFuseDesc_buffered output maxOut hheader (hop ▸ hread) hrefused]
    exact handleFuseGathered_starts hg _ maxOut hraw h

theorem serveAccepted_starts {ds : List Desc} {op : HostOp} (i : Fin 2) (head : UInt16)
    (h : ∀ output maxOut, (handleFuseDesc (readable ds) output maxOut g).Starts op k.Fair k.Permits
      fun r => (FsGuest.rules root writable k).good r.2) :
    (serveAccepted i head ds g).Starts op k.Fair k.Permits
      fun r => (FsGuest.rules root writable k).good r.2 := by
  refine (h _ _).bind ?_
  rintro ⟨r, g₁⟩ hgood
  match r with
  | .error e => exact hgood
  | .ok (.direct n) => exact hgood
  | .ok (.buffered response) =>
    exact (finishBuffered_keeps i head ds response g₁ hgood).imp fun r hr => hr.1

/-- **A request that may change something** makes one call first, to drop what was prepared;
then it asks the workers for nothing, and leaves nothing prepared in a listing. -/
theorem serve_rejecting {op : FsOp} (hg : g.dev.Good root writable live) (hop : g.Rejects op) :
    (op.serve g).Starts .raInvalidate (Kind.alone writable).Fair (Kind.alone writable).Permits
      fun r => r.2.dev.Good root writable fun _ => False := by
  cases op with
  | retry => exact hop.elim
  | reset => exact hop.elim
  | request i head =>
    obtain ⟨haccepted, header, hheader, hcases⟩ := hop
    have hlen : inHeaderLen ≤ totalLen (g.chainInput i head) := inHeaderLen_le_of_accepts haccepted
    have hserve : (serveAccepted i head ((g.dev.transport.queues i).chain g.mem head).1 g).Starts
        .raInvalidate (Kind.alone writable).Fair (Kind.alone writable).Permits
        fun r => (FsGuest.rules root writable (Kind.alone writable)).good r.2 := by
      refine serveAccepted_starts i head fun output maxOut => ?_
      rcases hcases with ⟨hwrite, hw⟩ | ⟨raw, hraw, hro⟩
      · exact directWrite_starts hg output maxOut hlen hheader hwrite (hg.writable_eq.symm.trans hw)
      · exact rejected_starts hg output maxOut hlen hheader hraw hro
    have hchain : handleChain i head g = serveAccepted i head _ g :=
      (handleChain_eq g i head).trans (if_pos haccepted)
    show ((handleChain i head g).bind _).Starts _ _ _ _
    rw [hchain]
    refine hserve.bind ?_
    rintro ⟨r, g₁⟩ hgood
    cases r with
    | error e => exact hgood.1
    | ok used =>
      exact (complete_keeps i head used g₁ hgood).imp fun r hr => hr.1.1

end FsOp
