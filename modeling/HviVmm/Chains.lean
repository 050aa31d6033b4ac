/-
Descriptor chains.

Every device walks a chain the same way: it reads the descriptor at the head,
follows `next` while the descriptor says there is one, and gives up after as many
descriptors as the queue has, so that a cycle ends.  What the devices do with a
walk that breaks off or never ends differs, so `Queue.walk` returns how it ended.

* `Queue.walk_congr` — a walk reads the descriptor table and nothing else;
* `Queue.length_walk_le` — it visits at most as many descriptors as its budget.
-/
import HviVmm.Queue
import HviVmm.Segments

open ByteCodec ByteStore

/-- One descriptor of the table. -/
structure Desc where
  addr : UInt64
  len : UInt32
  flags : UInt16
  next : UInt16
  deriving DecidableEq, Repr

/-- A buffer a descriptor names. -/
abbrev Seg := UInt64 × UInt32

namespace Desc

/-- The device writes to the buffer. -/
def isWrite (d : Desc) : Bool := d.flags &&& virtqDescFWrite != 0

/-- The chain goes on. -/
def hasNext (d : Desc) : Bool := d.flags &&& virtqDescFNext != 0

def seg (d : Desc) : Seg := (d.addr, d.len)

end Desc

/-- The addresses of a buffer. -/
def span (s : Seg) : ℕ × ℕ := (s.1.toNat, s.2.toNat)

def spans (segs : List Seg) : List (ℕ × ℕ) := segs.map span

/-- How many bytes the buffers hold.  The source sums them in a `usize`, which
holds the lengths of the at most 256 descriptors of a chain. -/
def totalLen (segs : List Seg) : ℕ := total (spans segs)

/-- Every buffer lies in RAM. -/
def InRam (mem : GuestRam) (segs : List Seg) : Prop :=
  ∀ s ∈ segs, mem.contains s.1 s.2.toNat = true

theorem totalLen_cons (s : Seg) (segs : List Seg) :
    totalLen (s :: segs) = s.2.toNat + totalLen segs := by
  simp [totalLen, spans, span]

/-- How a walk ended: at a descriptor without a successor, at one that cannot be
read, or with its budget. -/
inductive ChainEnd where
  | done
  | broken
  | endless
  deriving DecidableEq, Repr

namespace Queue

/-- The descriptor in this slot of the table. -/
def readDesc (q : Queue) (mem : GuestRam) (d : UInt16) : Option Desc := do
  let da ← q.descAddr d
  let addr ← mem.readU64 da
  let len ← mem.readU32 (da + 8)
  let flags ← mem.readU16 (da + 12)
  let next ← mem.readU16 (da + 14)
  some ⟨addr, len, flags, next⟩

/-- The descriptors from `d` on, at most `budget` of them. -/
def walk (q : Queue) (mem : GuestRam) : ℕ → UInt16 → List Desc × ChainEnd
  | 0, _ => ([], .endless)
  | budget + 1, d =>
    match q.readDesc mem d with
    | none => ([], .broken)
    | some desc =>
      if desc.hasNext then
        let rest := q.walk mem budget desc.next
        (desc :: rest.1, rest.2)
      else ([desc], .done)

/-- The chain at `head`, with the queue's size as the budget. -/
def chain (q : Queue) (mem : GuestRam) (head : UInt16) : List Desc × ChainEnd :=
  q.walk mem q.size.toNat head

end Queue

/-- The buffers the device may read, in chain order. -/
def readable (ds : List Desc) : List Seg := (ds.filter fun d => !d.isWrite).map Desc.seg

/-- The buffers the device may write, in chain order. -/
def writable (ds : List Desc) : List Seg := (ds.filter Desc.isWrite).map Desc.seg

/-! ### What a walk reads -/

namespace Queue

/-- The addresses of the descriptor table. -/
def descTable (q : Queue) : ℕ × ℕ := (q.desc.toNat, 16 * q.num.toNat)

def availRing (q : Queue) : ℕ × ℕ := (q.avail.toNat, 6 + 2 * q.num.toNat)

def usedRing (q : Queue) : ℕ × ℕ := (q.used.toNat, 6 + 8 * q.num.toNat)

variable {q : Queue} {mem mem' : GuestRam}

theorem length_walk_le (q : Queue) (mem : GuestRam) (budget : ℕ) (d : UInt16) :
    (q.walk mem budget d).1.length ≤ budget := by
  induction budget generalizing d with
  | zero => exact Nat.le_refl 0
  | succ budget ih =>
    rw [walk]
    split
    · exact Nat.zero_le _
    · next desc _ =>
      split
      · simpa using ih desc.next
      · simp

/-- **A walk reads the descriptor table and nothing else.** -/
theorem readDesc_congr (h : q.ReadyOk mem) (hq : q.isReady = true)
    (hr : mem'.regions = mem.regions) {A : Set ℕ} (ha : AgreeOff A mem.bytes mem'.bytes)
    (hd : ∀ x ∈ Range q.descTable, x ∉ A) (d : UInt16) :
    q.readDesc mem' d = q.readDesc mem d := by
  unfold readDesc
  cases hda : q.descAddr d with
  | none => rfl
  | some da =>
    obtain ⟨haddr, hin⟩ := h.descAddr hq hda
    have hlt : d.toNat < q.num.toNat := by
      simp only [Queue.descAddr, Option.ite_none_right_eq_some] at hda
      simpa using UInt32.lt_iff_toNat_lt.mp hda.1
    have hread : ∀ (o : UInt64) (k : ℕ), o.toNat + k ≤ 16 →
        mem'.read (da + o) k = mem.read (da + o) k := by
      intro o k hk
      obtain ⟨hsum, -⟩ := GuestRam.contains_sub (o := o) (k := k) hin hk
      refine GuestRam.read_congr hr fun _ => ha.peek fun x hx => hd x ?_
      have h1 := hx.1
      have h2 := hx.2
      simp only [Range, descTable, Set.mem_ofPred_eq] at h1 h2 ⊢
      omega
    have h0 := hread 0 8 (by decide)
    rw [UInt64.add_zero] at h0
    simp only [Option.bind_eq_bind, Option.bind_some, GuestRam.readU64, GuestRam.readU32,
      GuestRam.readU16, h0, hread 8 4 (by decide), hread 12 2 (by decide), hread 14 2 (by decide)]

theorem walk_congr (h : ∀ d, q.readDesc mem' d = q.readDesc mem d) (budget : ℕ) (d : UInt16) :
    q.walk mem' budget d = q.walk mem budget d := by
  induction budget generalizing d with
  | zero => rfl
  | succ budget ih =>
    rw [walk, walk, h d]
    cases q.readDesc mem d with
    | none => rfl
    | some desc => simp only [ih]

end Queue
