/-
Lock ranges of virtio-fs, to the host and back.

A Linux lock names its last offset, and 2⁶³ − 1 stands for the end of the file.  The host
names a length, and 0 stands for the end of the file.  Both denote a set of offsets:
`linuxRange` and `HostLock.offsets`.

* `offsets_hostLock` — the host lock of a range denotes the range;
* `lockRangeOut_of` — a host lock that was set from a range is reported as the range, if
  the range ends before the end of the file;
* `lock_ranges_round_trip` — both, as `lock` makes its calls and answers GETLK, and that
  no other range is reported as it was set;
* `lock_range_past_max` — a lock through the end of the file is reported with an end that
  the guest's kernel refuses.
-/
import HviVmm.CallEquations
import HviVmm.FsContainment

open CallPrograms Fuse

/-- The offsets of a Linux lock range. -/
def linuxRange (start endAt : UInt64) : Set ℕ :=
  {x | start.toNat ≤ x ∧ (x ≤ endAt.toNat ∨ endAt.toNat = 2 ^ 63 - 1)}

/-- The offsets of a host lock. -/
def HostLock.offsets (l : HostLock) : Set ℕ :=
  {x | l.start ≤ x ∧ (x < l.start + l.len ∨ l.len = 0)}

namespace VirtioFs

/-- The host lock was set from the range, as `lock` does it. -/
structure SetFrom (l : HostLock) (start endAt : UInt64) : Prop where
  start_eq : l.start = start.toNat
  len_eq : hostLockLen start endAt = .ok l.len

variable {start endAt : UInt64} {l : HostLock}
variable {tr : List HostCall}

/-- The largest offset a lock may end at. -/
def offsetMax : UInt64 := 0x7fffffffffffffff

theorem toNat_offsetMax : offsetMax.toNat = 2 ^ 63 - 1 := rfl

/-- The length of a range that ends before the end of the file. -/
theorem hostLockLen_of_lt (hle : start ≤ endAt) (hlt : endAt < offsetMax) :
    hostLockLen start endAt = .ok (endAt.toNat - start.toNat + 1) := by
  have hle' := UInt64.le_iff_toNat_le.mp hle
  have hlt' := UInt64.lt_iff_toNat_lt.mp hlt
  rw [toNat_offsetMax] at hlt'
  have hone : (1 : UInt64).toNat = 1 := rfl
  have hsub : (endAt - start).toNat = endAt.toNat - start.toNat := UInt64.toNat_sub_of_le _ _ hle
  have hadd : (satAdd (endAt - start) 1).toNat = endAt.toNat - start.toNat + 1 := by
    rw [satAdd, hsub, hone, if_pos (by omega), UInt64.toNat_add, hsub, hone,
      Nat.mod_eq_of_lt (by omega)]
  have hmax : ¬ (0x7fffffffffffffff : UInt64) ≤ endAt := by
    rw [UInt64.not_le]
    exact hlt
  have hrev : ¬ endAt < start := UInt64.not_lt.mpr hle
  unfold hostLockLen
  rw [if_neg hmax, if_neg hrev]
  simp only [hadd]
  rw [if_pos (by omega)]
  congr 1
  omega

theorem hostLockLen_offsetMax (start : UInt64) : hostLockLen start offsetMax = .ok 0 := by
  unfold hostLockLen
  exact if_pos (by decide)

/-- **The host lock of a range denotes the range.** -/
theorem offsets_hostLock (hle : start ≤ endAt) (hmax : endAt ≤ offsetMax)
    (h : SetFrom l start endAt) : l.offsets = linuxRange start endAt := by
  have hle' := UInt64.le_iff_toNat_le.mp hle
  have hmax' := UInt64.le_iff_toNat_le.mp hmax
  rw [toNat_offsetMax] at hmax'
  have hlen := h.len_eq
  ext x
  simp only [HostLock.offsets, linuxRange, Set.mem_ofPred_eq, h.start_eq]
  by_cases hend : endAt = offsetMax
  · subst hend
    rw [hostLockLen_offsetMax] at hlen
    injection hlen with hlen
    rw [← hlen, toNat_offsetMax]
    omega
  · have hlt : endAt < offsetMax := UInt64.lt_of_le_of_ne hmax hend
    have hlt' := UInt64.lt_iff_toNat_lt.mp hlt
    rw [toNat_offsetMax] at hlt'
    rw [hostLockLen_of_lt hle hlt] at hlen
    injection hlen with hlen
    rw [← hlen]
    omega

/-- **A lock set from a range is reported as the range**, unless it runs through the end of
the file. -/
theorem lockRangeOut_of (hle : start ≤ endAt) (hlt : endAt < offsetMax)
    (h : SetFrom l start endAt) : lockRangeOut l = (start, endAt) := by
  have hle' := UInt64.le_iff_toNat_le.mp hle
  have hlt' := UInt64.lt_iff_toNat_lt.mp hlt
  rw [toNat_offsetMax] at hlt'
  have hlen := h.len_eq
  rw [hostLockLen_of_lt hle hlt] at hlen
  injection hlen with hlen
  have hone : (1 : UInt64).toNat = 1 := rfl
  have hstart : nonnegative l.start = start := by
    rw [nonnegative, h.start_eq, max_eq_left (by omega), Int.toNat_natCast, UInt64.ofNat_toNat]
  have hwords : (UInt64.ofNat (l.len % 2 ^ 64).toNat).toNat = endAt.toNat - start.toNat + 1 := by
    rw [UInt64.toNat_ofNat', ← hlen]
    omega
  have hsum : (satAdd start (UInt64.ofNat (l.len % 2 ^ 64).toNat)).toNat = endAt.toNat + 1 := by
    rw [satAdd, hwords, if_pos (by omega), UInt64.toNat_add, hwords]
    omega
  have hback : satSub (satAdd start (UInt64.ofNat (l.len % 2 ^ 64).toNat)) 1 = endAt := by
    have hge : (1 : UInt64) ≤ satAdd start (UInt64.ofNat (l.len % 2 ^ 64).toNat) := by
      rw [UInt64.le_iff_toNat_le, hsum, hone]
      omega
    rw [satSub, if_pos hge, ← UInt64.toNat_inj, UInt64.toNat_sub_of_le _ _ hge, hsum, hone]
    omega
  have hpos : l.len ≠ 0 := by omega
  rw [lockRangeOut]
  simp only [hstart, if_neg hpos, hback]

/-- A lock through the end of the file is reported with the end 2⁶⁴ − 1. -/
theorem lockRangeOut_offsetMax (h : SetFrom l start offsetMax) :
    (lockRangeOut l).2 = 0xffffffffffffffff := by
  have hlen := h.len_eq
  rw [hostLockLen_offsetMax] at hlen
  injection hlen with hlen
  exact if_pos hlen.symm

/-! ### The calls of `lock` -/

/-- The fields of a request for a POSIX lock, and the open file it is for. -/
structure LockRequest (s : VirtioFs) (input : Bytes) (fh start endAt : UInt64) (file : Fd)
    (type : HostLockType) : Prop where
  fh_eq : getU64 input 0 = some fh
  start_eq : getU64 input 16 = some start
  end_eq : getU64 input 24 = some endAt
  type_eq : ∃ lockType, getU32 input 32 = some lockType ∧ linuxLockToHost lockType = some type
  pid : ∃ pid, getU32 input 36 = some pid
  posix : ∃ flags, getU32 input 40 = some flags ∧ has flags fuseLkFlock = false
  handle : ∃ handle, s.handles.lookup fh = some handle ∧ handle.file = file

variable {s : VirtioFs} {input : Bytes} {fh unique : UInt64} {file : Fd} {type : HostLockType}

/-- A range with an end at most 2⁶³ − 1 has a host length. -/
theorem exists_hostLockLen (hle : start ≤ endAt) (hmax : endAt ≤ offsetMax) :
    ∃ len, hostLockLen start endAt = .ok len := by
  by_cases hend : endAt = offsetMax
  · subst hend
    exact ⟨0, hostLockLen_offsetMax start⟩
  · exact ⟨_, hostLockLen_of_lt hle (UInt64.lt_of_le_of_ne hmax hend)⟩

theorem lock_set (h : LockRequest s input fh start endAt file type) (hstart : start.toNat < 2 ^ 63)
    {len : ℤ} (hlen : hostLockLen start endAt = .ok len) {op : Opcode}
    (hop : op = .setlk ∨ op = .setlkw) :
    lock input op unique s =
      settleLock fh unique (.posix { start := start.toNat, len, type }) (op = .setlkw) s := by
  obtain ⟨lockType, htype, htype'⟩ := h.type_eq
  obtain ⟨pid, hpid⟩ := h.pid
  obtain ⟨flags, hflags, hposix⟩ := h.posix
  obtain ⟨handle, hhandle, -⟩ := h.handle
  have hsmall : ¬ 2 ^ 63 ≤ start.toNat := by omega
  unfold lock
  simp only [u64At, u32At, h.fh_eq, h.start_eq, h.end_eq, htype, hpid, hflags, hlen, htype',
    hposix, hhandle, Proc.orThrow_some, Proc.lift_ok, Proc.pure_bind_apply, Proc.get_bind_apply,
    if_neg hsmall, if_pos hop, Bool.false_eq_true, if_false]

/-- What GETLK answers when the host reports a lock. -/
def foundReply (found : HostLock) : Fs Bytes := do
  let type ← Proc.orThrow (hostLockToLinux found.type) .eio
  pure (putU64 (lockRangeOut found).1 ++ putU64 (lockRangeOut found).2 ++ putU32 type ++
    putU32 (UInt32.ofNat (max found.pid 0).toNat))

theorem foundReply_runs {found : HostLock} {r : Except Errno Bytes} {s' : VirtioFs}
    (h : Runs (foundReply found s) tr (r, s')) :
    tr = [] ∧ ∀ lockType, hostLockToLinux found.type = some lockType →
      r = .ok (putU64 (lockRangeOut found).1 ++ putU64 (lockRangeOut found).2 ++ putU32 lockType ++
        putU32 (UInt32.ofNat (max found.pid 0).toNat)) := by
  unfold foundReply at h
  cases htype : hostLockToLinux found.type with
  | none =>
    rw [htype] at h
    exact ⟨(runs_ret.mp h).1, nofun⟩
  | some t =>
    rw [htype] at h
    obtain ⟨htr, hr⟩ := runs_ret.mp h
    refine ⟨htr, ?_⟩
    rintro lockType ⟨⟩
    exact (Prod.mk.inj hr).1

theorem lock_get (h : LockRequest s input fh start endAt file type) (hstart : start.toNat < 2 ^ 63)
    {len : ℤ} (hlen : hostLockLen start endAt = .ok len) :
    lock input .getlk unique s = .call (.ofdGetlk file { start := start.toNat, len, type }) fun x =>
        (Io.hostResult x >>= foundReply : Fs Bytes) s := by
  obtain ⟨lockType, htype, htype'⟩ := h.type_eq
  obtain ⟨pid, hpid⟩ := h.pid
  obtain ⟨flags, hflags, hposix⟩ := h.posix
  obtain ⟨handle, hhandle, rfl⟩ := h.handle
  have hsmall : ¬ 2 ^ 63 ≤ start.toNat := by omega
  have hop : ¬ (Opcode.getlk = .setlk ∨ Opcode.getlk = .setlkw) := by decide
  unfold lock
  simp only [u64At, u32At, h.fh_eq, h.start_eq, h.end_eq, htype, hpid, hflags, hlen, htype',
    hposix, hhandle, Proc.orThrow_some, Proc.lift_ok, Proc.pure_bind_apply, Proc.get_bind_apply,
    if_neg hsmall, if_neg hop, Bool.false_eq_true, if_false, if_true]
  rfl

theorem tryLock_posix {σ : Type} {s s' : σ} {r : Except Errno (Except (Option Errno) Unit)}
    (h : Runs (Io.tryLock file (.posix l) s) tr (r, s')) :
    s' = s ∧ ∃ x, tr = [⟨.ofdSetlk file l, x⟩] := by
  obtain ⟨x, tr', rfl, hx⟩ := runs_call.mp h
  have hret : ∃ r', Runs (.ret (.ok r', s)) tr' (r, s') := by
    cases x with
    | ok u => exact ⟨_, hx⟩
    | error err => cases err <;> exact ⟨_, hx⟩
  obtain ⟨r', hret⟩ := hret
  obtain ⟨rfl, hr⟩ := runs_ret.mp hret
  cases hr
  exact ⟨rfl, x, rfl⟩

/-- A lock call on a POSIX lock makes that call and no other. -/
theorem settleLock_posix {handle : FileHandle} {wait : Bool} {r : Except Errno Bytes}
    {s' : VirtioFs} (hhandle : s.handles.lookup fh = some handle)
    (h : Runs (settleLock fh unique (.posix l) wait s) tr (r, s')) :
    ∃ x, tr = [⟨.ofdSetlk handle.file l, x⟩] := by
  unfold settleLock at h
  simp only [Proc.get_bind_apply, hhandle, Proc.orThrow_some, Proc.pure_bind_apply] at h
  rcases Proc.runs_bind.mp h with ⟨e, -, htry⟩ | ⟨tr₁, tr₂, a, s₁, rfl, htry, hrest⟩
  · exact (tryLock_posix htry).2
  · obtain ⟨rfl, x, rfl⟩ := tryLock_posix htry
    -- what follows the call asks the host for nothing
    have hnil : tr₂ = [] := by
      match a, hrest with
      | .ok (), hrest => exact (runs_ret.mp hrest).1
      | .error (some e), hrest => exact (runs_ret.mp hrest).1
      | .error none, hrest =>
        cases wait with
        | true => exact (runs_ret.mp hrest).1
        | false => exact (runs_ret.mp hrest).1
    exact ⟨x, by rw [hnil]; rfl⟩

/-- **Lock ranges round-trip.**  The lock `lock` hands to the host denotes the offsets of the
guest's range, for SETLK and SETLKW as for GETLK; and when the host reports a lock that was set
from a range, GETLK returns that range if and only if it does not run through the end of the
file. -/
theorem lock_ranges_round_trip (s : VirtioFs) (input : Bytes) (unique fh start endAt : UInt64)
    (file : Fd) (type : HostLockType) (h : LockRequest s input fh start endAt file type)
    (hle : start ≤ endAt) (hmax : endAt ≤ offsetMax) :
    ∃ l : HostLock, SetFrom l start endAt ∧ l.type = type ∧ l.offsets = linuxRange start endAt ∧
      (∀ op tr r s', op = .setlk ∨ op = .setlkw → Runs (lock input op unique s) tr (r, s') →
        ∃ x, tr = [⟨.ofdSetlk file l, x⟩]) ∧
      ∀ tr r s', Runs (lock input .getlk unique s) tr (r, s') →
        ∃ x, tr = [⟨.ofdGetlk file l, x⟩] ∧
          ∀ found start' endAt' lockType, x = .ok found → SetFrom found start' endAt' →
            start' ≤ endAt' → endAt' ≤ offsetMax → hostLockToLinux found.type = some lockType →
            (r = .ok (putU64 start' ++ putU64 endAt' ++ putU32 lockType ++
                putU32 (UInt32.ofNat (max found.pid 0).toNat)) ↔ endAt' ≠ offsetMax) := by
  have hsmall : start.toNat < 2 ^ 63 := by
    have hle' := UInt64.le_iff_toNat_le.mp (UInt64.le_trans hle hmax)
    rw [toNat_offsetMax] at hle'
    omega
  obtain ⟨len, hlen⟩ := exists_hostLockLen hle hmax
  have hset : SetFrom { start := start.toNat, len, type } start endAt := ⟨rfl, hlen⟩
  refine ⟨_, hset, rfl, offsets_hostLock hle hmax hset, ?_, ?_⟩
  · intro op tr r s' hop hrun
    rw [lock_set h hsmall hlen hop] at hrun
    obtain ⟨handle, hhandle, hfile⟩ := h.handle
    rw [← hfile]
    exact settleLock_posix hhandle hrun
  · intro tr r s' hrun
    rw [lock_get h hsmall hlen] at hrun
    obtain ⟨x, tr', rfl, hx⟩ := runs_call.mp hrun
    cases x with
    | error e =>
      obtain ⟨rfl, -⟩ := runs_ret.mp hx
      exact ⟨_, rfl, nofun⟩
    | ok found =>
      obtain ⟨rfl, hreply⟩ := foundReply_runs (hx : Runs (foundReply found s) tr' (r, s'))
      refine ⟨_, rfl, ?_⟩
      rintro found' start' endAt' lockType hfound hset' hle' hmax' htype
      cases hfound
      rw [hreply lockType htype]
      refine ⟨?_, fun hne => ?_⟩
      · -- the two ends would be encoded alike
        rintro hsame rfl
        injection hsame with hsame
        have hfront := (List.append_inj hsame (by simp [putU64, putU32])).1
        have hends := (List.append_inj (List.append_inj hfront (by simp [putU64])).1
          (by simp [putU64])).2
        rw [lockRangeOut_offsetMax hset'] at hends
        revert hends
        decide +kernel
      · rw [lockRangeOut_of hle' (UInt64.lt_of_le_of_ne hmax' hne) hset']

end VirtioFs

/-- A handle for writing the file `f`. -/
def handleOfF : FileHandle where
  file := ⟨9, .dup .root⟩
  writable := true
  openFlags := 2
  attrs := { key := (1, 7), mode := 0, uid := 0, gid := 0, ctime := (0, 0) }
  path := [[120], [102]]
  temporaryPath := none
  node := 2
  locked := false

/-- An export with one open file. -/
def oneHandle : VirtioFs := { smallExport true with handles := AList.singleton 1 handleOfF }

/-- A request for a write lock on `[start, endAt]`. -/
def lockInput (start endAt : UInt64) (flags : UInt32) : Bytes :=
  putU64 1 ++ putU64 0 ++ putU64 start ++ putU64 endAt ++ putU32 linuxFWrlck ++ putU32 0 ++
    putU32 flags ++ putU32 0

theorem oneHandle_request : VirtioFs.LockRequest oneHandle (lockInput 10 19 0) 1 10 19
    handleOfF.file .wrlck where
  fh_eq := by decide
  start_eq := by decide
  end_eq := by decide
  type_eq := ⟨linuxFWrlck, by decide, by decide⟩
  pid := ⟨0, by decide⟩
  posix := ⟨0, by decide, by decide⟩
  handle := ⟨handleOfF, rfl, rfl⟩

theorem lock_ranges_round_trip_ten :
    ∃ l : HostLock, VirtioFs.SetFrom l 10 19 ∧ l.offsets = linuxRange 10 19 := by
  obtain ⟨l, hset, -, hoffsets, -⟩ :=
    VirtioFs.lock_ranges_round_trip oneHandle (lockInput 10 19 0) 1 1 10 19 handleOfF.file .wrlck
      oneHandle_request (by decide) (by decide)
  exact ⟨l, hset, hoffsets⟩

/-- **A lock through the end of the file is reported past 2⁶³ − 1.**  The host reports the
lock that the range from 0 to 2⁶³ − 1 was set as, and GETLK returns the end 2⁶⁴ − 1. -/
theorem lock_range_past_max :
    VirtioFs.SetFrom { start := 0, len := 0, type := .wrlck } 0 VirtioFs.offsetMax ∧
    Runs (VirtioFs.lock (lockInput 10 19 0) .getlk 1 oneHandle)
      [⟨.ofdGetlk handleOfF.file { start := 10, len := 10, type := .wrlck },
        (.ok { start := 0, len := 0, type := .wrlck } : Except HostErr HostLock)⟩]
      (.ok (putU64 0 ++ putU64 0xffffffffffffffff ++ putU32 linuxFWrlck ++ putU32 0),
        oneHandle) := by
  refine ⟨⟨rfl, VirtioFs.hostLockLen_offsetMax 0⟩, ?_⟩
  have hlen : VirtioFs.hostLockLen 10 19 = .ok 10 := by decide
  rw [VirtioFs.lock_get oneHandle_request (by decide) hlen]
  exact .call (.ret _)
