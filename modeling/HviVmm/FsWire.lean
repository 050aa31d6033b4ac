/-
The FUSE wire format as the virtio-fs server reads and writes it, and the host
paths it keeps (`devices::virtio::fs::server`).

A request is a 40-byte header and a payload of fixed fields and NUL-terminated
names; a reply is a 16-byte header and a payload.  A path is the list of its
components, which is how the source compares paths; a component `..` stays in the
list, a component `.` does not.

* `IsComponent` — a name that stays in its directory: not empty, no `/`, not `.`
  and not `..`;
* `validateMutationName_ok`, `components_of_component` — where such names come
  from.
-/
import HviVmm.ByteCodec
import Mathlib.Data.List.Basic

open ByteCodec

abbrev Bytes := List UInt8

/-- The Linux error numbers the server answers with. -/
inductive Errno where
  | eperm | enoent | eio | enxio | ebadf | eagain | enomem | eacces | ebusy | eexist | exdev
  | enotdir | eisdir | einval | enfile | emfile | enotty | etxtbsy | efbig | enospc | erofs
  | emlink | erange | edeadlk | enametoolong | enolck | enosys | enotempty | eloop | enodata
  | eoverflow | eopnotsupp | estale | edquot
  deriving DecidableEq, Repr

def Errno.code : Errno → UInt32
  | eperm => 1 | enoent => 2 | eio => 5 | enxio => 6 | ebadf => 9 | eagain => 11 | enomem => 12
  | eacces => 13 | ebusy => 16 | eexist => 17 | exdev => 18 | enotdir => 20 | eisdir => 21
  | einval => 22 | enfile => 23 | emfile => 24 | enotty => 25 | etxtbsy => 26 | efbig => 27
  | enospc => 28 | erofs => 30 | emlink => 31 | erange => 34 | edeadlk => 35
  | enametoolong => 36 | enolck => 37 | enosys => 38 | enotempty => 39 | eloop => 40
  | enodata => 61 | eoverflow => 75 | eopnotsupp => 95 | estale => 116 | edquot => 122

/-- The FUSE opcodes the server knows. -/
inductive Opcode where
  | lookup | forget | getattr | setattr | readlink | symlink | mknod | mkdir | unlink | rmdir
  | rename | link | openFile | read | write | statfs | release | fsync | setxattr | getxattr
  | listxattr | removexattr | flush | init | opendir | readdir | releasedir | fsyncdir | getlk
  | setlk | setlkw | access | create | interrupt | destroy | ioctl | poll | batchForget
  | fallocate | readdirplus | rename2 | lseek | copyFileRange | setupmapping | removemapping
  | syncfs | tmpfile | statx
  deriving DecidableEq, Repr

namespace Opcode

def code : Opcode → UInt32
  | lookup => 1 | forget => 2 | getattr => 3 | setattr => 4 | readlink => 5 | symlink => 6
  | mknod => 8 | mkdir => 9 | unlink => 10 | rmdir => 11 | rename => 12 | link => 13
  | openFile => 14 | read => 15 | write => 16 | statfs => 17 | release => 18 | fsync => 20
  | setxattr => 21 | getxattr => 22 | listxattr => 23 | removexattr => 24 | flush => 25
  | init => 26 | opendir => 27 | readdir => 28 | releasedir => 29 | fsyncdir => 30 | getlk => 31
  | setlk => 32 | setlkw => 33 | access => 34 | create => 35 | interrupt => 36 | destroy => 38
  | ioctl => 39 | poll => 40 | batchForget => 42 | fallocate => 43 | readdirplus => 44
  | rename2 => 45 | lseek => 46 | copyFileRange => 47 | setupmapping => 48 | removemapping => 49
  | syncfs => 50 | tmpfile => 51 | statx => 52

def all : List Opcode :=
  [lookup, forget, getattr, setattr, readlink, symlink, mknod, mkdir, unlink, rmdir, rename, link,
    openFile, read, write, statfs, release, fsync, setxattr, getxattr, listxattr, removexattr,
    flush, init, opendir, readdir, releasedir, fsyncdir, getlk, setlk, setlkw, access, create,
    interrupt, destroy, ioctl, poll, batchForget, fallocate, readdirplus, rename2, lseek,
    copyFileRange, setupmapping, removemapping, syncfs, tmpfile, statx]

def decode (v : UInt32) : Option Opcode := all.find? fun op => op.code == v

end Opcode

namespace Fuse

/-! ### Sizes and flags -/

def rootId : UInt64 := 1
def inHeaderLen : ℕ := 40
def outHeaderLen : ℕ := 16
def maxRequest : ℕ := 2 * 2 ^ 20
def maxWrite : ℕ := 2 ^ 20

def linuxOAccmode : UInt32 := 0x3
def linuxOWronly : UInt32 := 0x1
def linuxORdwr : UInt32 := 0x2
def linuxOExcl : UInt32 := 0x80
def linuxOTrunc : UInt32 := 0x200
def linuxOAppend : UInt32 := 0x400

def fattrMode : UInt32 := 1
def fattrUid : UInt32 := 2
def fattrGid : UInt32 := 4
def fattrSize : UInt32 := 8
def fattrAtime : UInt32 := 16
def fattrMtime : UInt32 := 32
def fattrFh : UInt32 := 64
def fattrAtimeNow : UInt32 := 128
def fattrMtimeNow : UInt32 := 256
def fattrLockowner : UInt32 := 512
def fattrCtime : UInt32 := 1024
def fattrKillSuidgid : UInt32 := 2048

def fuseGetattrFh : UInt32 := 1
def fuseFsyncFdatasync : UInt32 := 1
def fuseOpenKillSuidgid : UInt32 := 1
def fuseWriteKillSuidgid : UInt32 := 4
def fuseLkFlock : UInt32 := 1
def fuseReleaseFlockUnlock : UInt32 := 2
def renameNoreplace : UInt32 := 1
def renameExchange : UInt32 := 2
def renameWhiteout : UInt32 := 4

def fallocFlKeepSize : UInt32 := 0x01
def fallocFlPunchHole : UInt32 := 0x02
def fallocFlCollapseRange : UInt32 := 0x08
def fallocFlZeroRange : UInt32 := 0x10
def fallocFlInsertRange : UInt32 := 0x20
def fallocFlUnshareRange : UInt32 := 0x40

def linuxXattrCreate : UInt32 := 1
def linuxXattrReplace : UInt32 := 2

def sIfmt : UInt32 := 0o170000
def sIfifo : UInt32 := 0o010000
def sIfchr : UInt32 := 0o020000
def sIfdir : UInt32 := 0o040000
def sIfblk : UInt32 := 0o060000
def sIfreg : UInt32 := 0o100000
def sIflnk : UInt32 := 0o120000
def sIfsock : UInt32 := 0o140000

def dtUnknown : UInt32 := 0
def dtFifo : UInt32 := 1
def dtChr : UInt32 := 2
def dtDir : UInt32 := 4
def dtBlk : UInt32 := 6
def dtReg : UInt32 := 8
def dtLnk : UInt32 := 10
def dtSock : UInt32 := 12

def linuxFRdlck : UInt32 := 0
def linuxFWrlck : UInt32 := 1
def linuxFUnlck : UInt32 := 2

/-- Whether `flags` has a bit of `mask`. -/
def has (flags mask : UInt32) : Bool := flags &&& mask != 0

/-! ### Fields -/

def getU32 (input : Bytes) (offset : ℕ) : Option UInt32 :=
  if offset + 4 ≤ input.length then some (UInt32.ofNat (leNat ((input.drop offset).take 4)))
  else none

def getU64 (input : Bytes) (offset : ℕ) : Option UInt64 :=
  if offset + 8 ≤ input.length then some (UInt64.ofNat (leNat ((input.drop offset).take 8)))
  else none

def putU16 (v : UInt16) : Bytes := leBytes 2 v.toNat
def putU32 (v : UInt32) : Bytes := leBytes 4 v.toNat
def putU64 (v : UInt64) : Bytes := leBytes 8 v.toNat

/-- `to_le_bytes` of an `i64`. -/
def putI64 (v : ℤ) : Bytes := leBytes 8 (v % 2 ^ 64).toNat

/-- `value.max(0) as u32` of an `i64`. -/
def nanos (v : ℤ) : UInt32 := UInt32.ofNat (max v 0).toNat

/-- `nonnegative`. -/
def nonnegative (v : ℤ) : UInt64 := UInt64.ofNat (max v 0).toNat

def align8 (n : ℕ) : ℕ := (n + 7) / 8 * 8

/-- `out.resize(len, 0)` of a buffer no longer than `len`. -/
def padTo (out : Bytes) (len : ℕ) : Bytes := out ++ List.replicate (len - out.length) 0

def successResponse (unique : UInt64) (payload : Bytes) : Bytes :=
  putU32 (UInt32.ofNat (outHeaderLen + payload.length)) ++ putU32 0 ++ putU64 unique ++ payload

/-- The error field is `-errno`. -/
def errorResponse (unique : UInt64) (errno : Errno) : Bytes :=
  putU32 (UInt32.ofNat outHeaderLen) ++ putU32 (0 - errno.code) ++ putU64 unique

/-! ### Names -/

/-- One name of a directory entry, or one component of a path. -/
abbrev Name := Bytes

scoped instance lawfulNames : LawfulBEq (List Name) := inferInstance

/-- The byte `/`. -/
def slash : UInt8 := 47
def dot : Name := [46]
def dotdot : Name := [46, 46]

/-- The name up to the next NUL at `offset`, and where the field after it starts. -/
def nulNameWithEnd (input : Bytes) (offset : ℕ) : Except Errno (Name × ℕ) :=
  if input.length < offset then .error .einval
  else
    let rest := input.drop offset
    match rest.idxOf? 0 with
    | none => .error .einval
    | some len => if len = 0 then .error .einval else .ok (rest.take len, offset + len + 1)

def nulName (input : Bytes) (offset : ℕ) : Except Errno Name :=
  (nulNameWithEnd input offset).map Prod.fst

def validateMutationName (name : Name) : Except Errno Unit :=
  if name = [] ∨ name = dot ∨ name = dotdot ∨ slash ∈ name then .error .einval else .ok ()

/-- `CString::new`: a name with a NUL inside is refused. -/
def cstring (name : Name) : Except Errno Name := if 0 ∈ name then .error .einval else .ok name

/-- A name that stays in its directory. -/
def IsComponent (name : Name) : Prop := name ≠ [] ∧ slash ∉ name ∧ name ≠ dot ∧ name ≠ dotdot

instance (name : Name) : Decidable (IsComponent name) := inferInstanceAs (Decidable (_ ∧ _))

theorem validateMutationName_ok {name : Name} {u : Unit} (h : validateMutationName name = .ok u) :
    IsComponent name := by
  unfold validateMutationName at h
  split at h
  · cases h
  · next hn =>
    push Not at hn
    exact ⟨hn.1, hn.2.2.2, hn.2.1, hn.2.2.1⟩

theorem cstring_ok {name name' : Name} (h : cstring name = .ok name') : name' = name := by
  unfold cstring at h
  split at h
  · cases h
  · cases h
    rfl

/-! ### Requests -/

/-- Whether an OPEN may change the file, by writing to it, truncating it or
clearing its set-id bits. -/
def openWantsWrite (flags openFlags : UInt32) : Bool :=
  has flags linuxOAccmode || has flags linuxOTrunc || has openFlags fuseOpenKillSuidgid

/-- Whether a request leaves the share unchanged, so that a prepared listing stays
valid across it.  An OPEN too short to say is taken as a write. -/
def requestIsReadOnly (opcode : UInt32) (payload : Bytes) : Bool :=
  match Opcode.decode opcode with
  | some .openFile =>
    match getU32 payload 0, getU32 payload 4 with
    | some flags, some openFlags => !openWantsWrite flags openFlags
    | _, _ => false
  | some .lookup | some .forget | some .getattr | some .readlink | some .read | some .statfs
  | some .release | some .fsync | some .getxattr | some .listxattr | some .flush | some .init
  | some .opendir | some .readdir | some .releasedir | some .fsyncdir | some .getlk | some .setlk
  | some .setlkw | some .ioctl | some .interrupt | some .access | some .destroy | some .poll
  | some .batchForget | some .readdirplus | some .lseek | some .syncfs | some .statx => true
  | _ => false

end Fuse

/-! ### Paths -/

/-- A path as the list of its components. -/
abbrev PathBuf := List Fuse.Name

namespace PathBuf

variable {name : Name} {p : PathBuf}

open Fuse

/-- The components of the bytes of a path: empty ones and `.` go. -/
def components (bytes : Bytes) : PathBuf :=
  (bytes.splitOn slash).filter fun c => c ≠ [] ∧ c ≠ dot

def isAbsolute (bytes : Bytes) : Bool := bytes.head? == some slash

/-- `Path::join`: an absolute second path replaces the first. -/
def join (p : PathBuf) (bytes : Bytes) : PathBuf :=
  if isAbsolute bytes then components bytes else p ++ components bytes

/-- `Path::parent`. -/
def parent (p : PathBuf) : Option PathBuf := if p = [] then none else some p.dropLast

/-- `Path::file_name`: the last component, unless it is `..`. -/
def fileName (p : PathBuf) : Option Name :=
  match p.getLast? with
  | some name => if name = dotdot then none else some name
  | none => none

/-- `Path::strip_prefix`. -/
def below (p base : PathBuf) : Option PathBuf :=
  if base <+: p then some (p.drop base.length) else none

/-- A path every component of which stays in its directory. -/
def Proper (p : PathBuf) : Prop := ∀ name ∈ p, IsComponent name

theorem not_mem_of_mem_splitOn [BEq α] [LawfulBEq α] {a : α} {l c : List α}
    (h : c ∈ l.splitOn a) : a ∉ c := by
  induction l generalizing c with
  | nil =>
    rw [List.splitOn_nil, List.mem_singleton] at h
    simp [h]
  | cons b l ih =>
    rw [List.splitOn_cons_eq_if_modifyHead] at h
    split at h
    · rcases List.mem_cons.mp h with rfl | h
      · simp
      · exact ih h
    · next hb =>
      -- the element goes to the front of the first piece
      cases hsplit : l.splitOn a with
      | nil => exact absurd hsplit (List.splitOn_ne_nil a l)
      | cons first rest =>
        rw [hsplit, List.modifyHead_cons] at h
        rcases List.mem_cons.mp h with rfl | h
        · have hfirst := ih (c := first) (by simp [hsplit])
          simp only [List.mem_cons, not_or]
          exact ⟨fun hab => hb (by simp [hab]), hfirst⟩
        · exact ih (by simp [hsplit, h])

theorem mem_components {bytes : Bytes} {c : Name} (h : c ∈ components bytes) :
    IsComponent c ∨ c = dotdot := by
  simp only [components, List.mem_filter, decide_eq_true_eq] at h
  obtain ⟨hsplit, hne, hdot⟩ := h
  by_cases hup : c = dotdot
  · exact .inr hup
  · exact .inl ⟨hne, not_mem_of_mem_splitOn hsplit, hdot, hup⟩

/-- A name that stays in its directory is one component. -/
theorem components_of_component (h : IsComponent name) : components name = [name] := by
  obtain ⟨hne, hslash, hdot, -⟩ := h
  have hsplit : name.splitOn slash = [name] := List.splitOn_eq_singleton hslash
  simp [components, hsplit, hne, hdot]

theorem isAbsolute_of_component (h : IsComponent name) : isAbsolute name = false := by
  cases name with
  | nil => exact absurd rfl h.1
  | cons b rest =>
    have hb : b ≠ slash := fun hb => h.2.1 (by simp [hb])
    simpa [isAbsolute] using hb

theorem join_component (p : PathBuf) (h : IsComponent name) : join p name = p ++ [name] := by
  simp [join, isAbsolute_of_component h, components_of_component h]

theorem below_eq_some {base rel : PathBuf} : below p base = some rel ↔ p = base ++ rel := by
  unfold below
  constructor
  · intro h
    split at h
    · next hpre =>
      obtain ⟨t, rfl⟩ := hpre
      simpa using h
    · cases h
  · rintro rfl
    simp

theorem fileName_eq_some (h : fileName p = some name) : p = p.dropLast ++ [name] := by
  unfold fileName at h
  split at h
  · next last hlast =>
    split at h
    · cases h
    · cases h
      exact (List.dropLast_append_getLast? _ hlast).symm
  · cases h

/-- The parent of a path, or the path itself when it has none. -/
theorem parent_getD (p : PathBuf) : p.parent.getD [] = p.dropLast := by
  unfold parent
  split
  · next h => simp [h]
  · rfl

theorem Proper.nil : Proper [] := by simp [Proper]

theorem Proper.append {q : PathBuf} (hp : Proper p) (hq : Proper q) : Proper (p ++ q) := by
  intro name h
  exact (List.mem_append.mp h).elim (hp name) (hq name)

theorem Proper.of_append_right {q : PathBuf} (h : Proper (p ++ q)) : Proper q := by
  intro name hname
  exact h name (List.mem_append_right p hname)

theorem Proper.snoc (hp : Proper p) (hn : IsComponent name) : Proper (p ++ [name]) :=
  hp.append fun _ hc => List.mem_singleton.mp hc ▸ hn

theorem Proper.dropLast (h : Proper p) : Proper p.dropLast := by
  intro name hname
  exact h name ((List.dropLast_sublist p).subset hname)

theorem Proper.parent (h : Proper p) : Proper (p.parent.getD []) := by
  rw [parent_getD]
  exact h.dropLast

end PathBuf
