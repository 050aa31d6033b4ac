/-
The split virtqueue the virtio devices share (`devices::virtio::queue`).

Every field of a `Queue` is programmed by the driver.  The size is checked when
it is stored, so it is part of the type that it is zero or an allowed size;
readiness is decided when `QUEUE_READY` is written and forgotten at every write
that could invalidate it.

* `Queue.ReadyOk` — a ready queue has its three rings in guest RAM, each in one
  region;
* `ReadyOk.descAddr`, `ReadyOk.availSlot`, `ReadyOk.pending` and
  `ReadyOk.pushUsed` — what follows for the addresses the queue computes and the
  ring accesses it makes: no sum wraps and no access is refused.
-/
import HviVmm.GuestRam

/-- `u32::is_power_of_two`. -/
def isPowerOfTwo (v : UInt32) : Bool := (List.range 32).any fun k => v.toNat == 2 ^ k

/-- The largest queue size a driver may program. -/
def queueNumMax : UInt32 := 256

def virtqDescFNext : UInt16 := 1
def virtqDescFWrite : UInt16 := 2

/-- The test `set_num` makes of a size. -/
def validNum (v : UInt32) : Bool := v != 0 && decide (v ≤ queueNumMax) && isPowerOfTwo v

/-- One virtqueue's driver-programmed state. -/
structure Queue where
  num : UInt32 := 0
  ready : Bool := false
  desc : UInt64 := 0
  avail : UInt64 := 0
  used : UInt64 := 0
  lastAvail : UInt16 := 0
  num_valid : num = 0 ∨ validNum num = true := by decide

/-- A queue the driver has not set up. -/
abbrev Queue.initial : Queue := {}

def setLo (v : UInt64) (lo : UInt32) : UInt64 :=
  (v &&& (0xffffffff00000000 : UInt64)) ||| lo.toUInt64
def setHi (v : UInt64) (hi : UInt32) : UInt64 :=
  (v &&& (0x00000000ffffffff : UInt64)) ||| (hi.toUInt64 <<< 32)

namespace Queue

variable {q : Queue} {mem : GuestRam}

def setNum (q : Queue) (v : UInt32) : Queue :=
  if h : validNum v = true then { q with num := v, ready := false, num_valid := .inr h }
  else { q with num := 0, ready := false, num_valid := .inl rfl }

def size (q : Queue) : UInt16 := q.num.toUInt16

/-- The three ring extents, each with its 2-byte event suffix. -/
def ringsFit (q : Queue) (mem : GuestRam) : Bool :=
  let n := q.num.toNat
  n != 0 && mem.contains q.desc (16 * n) && mem.contains q.avail (6 + 2 * n)
    && mem.contains q.used (6 + 8 * n)

/-- QueueReady: the rings must lie in RAM. -/
def setReady (q : Queue) (v : UInt32) (mem : GuestRam) : Queue :=
  { q with ready := (v &&& 1 == 1) && q.ringsFit mem }

/-- The queue can be served. -/
def isReady (q : Queue) : Bool := q.ready && q.num != 0

def reset (_ : Queue) : Queue := {}

/-- Address of descriptor `d`, if it is in the ring. -/
def descAddr (q : Queue) (d : UInt16) : Option UInt64 :=
  if d.toUInt32 < q.num then some (q.desc + d.toUInt64 * 16) else none

/-- Address of the avail ring's slot for `idx`. -/
def availSlot (q : Queue) (idx : UInt16) : Option UInt64 :=
  if q.size != 0 then some (q.avail + 4 + (idx % q.size).toUInt64 * 2) else none

/-- How many buffers the driver has published since `lastAvail`. -/
def pending (q : Queue) (mem : GuestRam) : Option UInt16 := do
  let idx ← mem.readU16 (q.avail + 2)
  let n := idx - q.lastAvail
  if n ≤ q.size then some n else none

def setLastAvail (q : Queue) (v : UInt16) : Queue := { q with lastAvail := v }

def setDescLo (q : Queue) (v : UInt32) : Queue := { q with desc := setLo q.desc v, ready := false }
def setDescHi (q : Queue) (v : UInt32) : Queue := { q with desc := setHi q.desc v, ready := false }
def setAvailLo (q : Queue) (v : UInt32) : Queue :=
  { q with avail := setLo q.avail v, ready := false }
def setAvailHi (q : Queue) (v : UInt32) : Queue :=
  { q with avail := setHi q.avail v, ready := false }
def setUsedLo (q : Queue) (v : UInt32) : Queue := { q with used := setLo q.used v, ready := false }
def setUsedHi (q : Queue) (v : UInt32) : Queue := { q with used := setHi q.used v, ready := false }

/-- Address of the used ring's element for `usedIdx`. -/
def usedEntry (q : Queue) (usedIdx : UInt16) : UInt64 :=
  q.used + 4 + (usedIdx % q.size).toUInt64 * 8

/-- Appends a completed buffer to the used ring.  A refused store is ignored, as
the source ignores it. -/
def pushUsed (q : Queue) (mem : GuestRam) (head : UInt16) (len : UInt32) : GuestRam :=
  if q.size == 0 then mem
  else match mem.readU16 (q.used + 2) with
    | none => mem
    | some usedIdx =>
      let entry := q.usedEntry usedIdx
      let mem := (mem.writeU32 entry head.toUInt32).getD mem
      let mem := (mem.writeU32 (entry + 4) len).getD mem
      (mem.writeU16 (q.used + 2) (usedIdx + 1)).getD mem

/-- `pushUsed` with every access required to succeed. -/
def pushUsedStrict (q : Queue) (mem : GuestRam) (head : UInt16) (len : UInt32) :
    Option GuestRam := do
  let usedIdx ← mem.readU16 (q.used + 2)
  let mem ← mem.writeU32 (q.usedEntry usedIdx) head.toUInt32
  let mem ← mem.writeU32 (q.usedEntry usedIdx + 4) len
  mem.writeU16 (q.used + 2) (usedIdx + 1)

/-! ### The size -/

theorem validNum_pow {v : UInt32} (h : validNum v = true) : ∃ k ≤ 8, v.toNat = 2 ^ k := by
  simp only [validNum, isPowerOfTwo, Bool.and_eq_true, List.any_eq_true, List.mem_range,
    beq_iff_eq, decide_eq_true_eq] at h
  obtain ⟨⟨-, hmax⟩, k, -, hk⟩ := h
  have hle : 2 ^ k ≤ 2 ^ 8 := hk ▸ hmax
  exact ⟨k, (Nat.pow_le_pow_iff_right (by decide)).mp hle, hk⟩

theorem num_le (q : Queue) : q.num.toNat ≤ 256 := by
  rcases q.num_valid with h | h
  · simp [h]
  · obtain ⟨k, hk, hv⟩ := validNum_pow h
    rw [hv]
    exact Nat.pow_le_pow_right (by decide) hk

/-- The 16-bit size is the programmed size: nothing is cut off. -/
theorem size_toNat (q : Queue) : q.size.toNat = q.num.toNat := by
  have := q.num_le
  simp [size]
  omega

theorem isReady_num_pos (h : q.isReady = true) : 0 < q.num.toNat := by
  simp only [isReady, Bool.and_eq_true, bne_iff_ne, ne_eq] at h
  have hne : q.num.toNat ≠ 0 := fun h0 => h.2 (UInt32.toNat_inj.mp h0)
  omega

theorem isReady_size_pow (h : q.isReady = true) : ∃ k ≤ 8, q.size.toNat = 2 ^ k := by
  have hpos := isReady_num_pos h
  rw [size_toNat]
  rcases q.num_valid with h0 | hv
  · rw [h0] at hpos
    exact absurd hpos (by decide)
  · exact validNum_pow hv

theorem size_ne_zero (h : 0 < q.num.toNat) : q.size ≠ 0 := by
  intro h0
  have := q.size_toNat
  rw [h0] at this
  simp at this
  omega

/-! ### Readiness -/

/-- The queue's rings lie in guest RAM whenever it is ready. -/
def ReadyOk (q : Queue) (mem : GuestRam) : Prop := q.ready = true → q.ringsFit mem = true

theorem readyOk_default (mem : GuestRam) : ReadyOk {} mem := by
  intro h
  exact absurd h (by decide)

theorem readyOk_of_not_ready (h : q.ready = false) : q.ReadyOk mem := by
  intro h'
  rw [h] at h'
  exact absurd h' (by decide)

theorem readyOk_setNum (q : Queue) (v : UInt32) (mem : GuestRam) : (q.setNum v).ReadyOk mem := by
  refine readyOk_of_not_ready ?_
  unfold setNum
  split <;> rfl

theorem readyOk_setReady (q : Queue) (v : UInt32) (mem : GuestRam) :
    (q.setReady v mem).ReadyOk mem := by
  intro h
  simp only [setReady, Bool.and_eq_true] at h
  exact h.2

theorem readyOk_setLastAvail (h : q.ReadyOk mem) (v : UInt16) : (q.setLastAvail v).ReadyOk mem := h

/-- Readiness depends on where the regions are, not on what RAM holds. -/
theorem ReadyOk.congr {mem' : GuestRam} (h : q.ReadyOk mem) (hr : mem'.regions = mem.regions) :
    q.ReadyOk mem' := by
  intro hready
  have := h hready
  simp only [ringsFit, GuestRam.contains_congr hr] at this ⊢
  exact this

theorem ReadyOk.rings (h : q.ReadyOk mem) (hr : q.isReady = true) :
    mem.contains q.desc (16 * q.num.toNat) = true ∧
      mem.contains q.avail (6 + 2 * q.num.toNat) = true ∧
      mem.contains q.used (6 + 8 * q.num.toNat) = true := by
  have hready : q.ready = true := by
    simp only [isReady, Bool.and_eq_true] at hr
    exact hr.1
  have hfit := h hready
  simp only [ringsFit, Bool.and_eq_true] at hfit
  exact ⟨hfit.1.1.2, hfit.1.2, hfit.2⟩

theorem pushUsed_regions (q : Queue) (mem : GuestRam) (head : UInt16) (len : UInt32) :
    (q.pushUsed mem head len).regions = mem.regions := by
  unfold pushUsed
  split
  · rfl
  · split
    · rfl
    · simp only [GuestRam.writeU16, GuestRam.writeU32, GuestRam.getD_write_regions]

/-! ### Ring addresses and accesses of a ready queue -/

section Ready

variable {q : Queue} {mem : GuestRam}

theorem ReadyOk.descAddr (h : q.ReadyOk mem) (hr : q.isReady = true) {d : UInt16} {a : UInt64}
    (ha : q.descAddr d = some a) :
    a.toNat = q.desc.toNat + 16 * d.toNat ∧ mem.contains a 16 = true := by
  obtain ⟨hdesc, -, -⟩ := h.rings hr
  have hd : d.toNat < q.num.toNat ∧ q.desc + d.toUInt64 * 16 = a := by
    simp only [Queue.descAddr, Option.ite_none_right_eq_some, Option.some.injEq] at ha
    exact ⟨by simpa using UInt32.lt_iff_toNat_lt.mp ha.1, ha.2⟩
  have hoff : (d.toUInt64 * 16).toNat = 16 * d.toNat := by
    have := d.toNat_lt
    simp [UInt64.toNat_mul]
    omega
  obtain ⟨haddr, hin⟩ := GuestRam.contains_sub (o := d.toUInt64 * 16) (k := 16) hdesc (by omega)
  rw [← hd.2]
  exact ⟨by rw [haddr, hoff], hin⟩

theorem ReadyOk.availSlot (h : q.ReadyOk mem) (hr : q.isReady = true) (idx : UInt16) :
    ∃ a, q.availSlot idx = some a ∧
      a.toNat = q.avail.toNat + 4 + 2 * (idx.toNat % q.size.toNat) ∧
      mem.contains a 2 = true := by
  obtain ⟨-, havail, -⟩ := h.rings hr
  have hpos := isReady_num_pos hr
  have hsize := q.size_toNat
  have hmod : idx.toNat % q.size.toNat < q.size.toNat := Nat.mod_lt _ (by omega)
  have hoff : ((idx % q.size).toUInt64 * 2).toNat = 2 * (idx.toNat % q.size.toNat) := by
    have := q.num_le
    simp [UInt64.toNat_mul]
    omega
  obtain ⟨h4, hin4⟩ := GuestRam.contains_sub (o := 4) (k := 2 + 2 * q.num.toNat) havail
    (by simp; omega)
  obtain ⟨haddr, hin⟩ := GuestRam.contains_sub (o := (idx % q.size).toUInt64 * 2) (k := 2) hin4
    (by omega)
  refine ⟨_, if_pos (by simpa using size_ne_zero hpos), ?_, hin⟩
  rw [haddr, h4, hoff]
  rfl

theorem ReadyOk.pending (h : q.ReadyOk mem) (hr : q.isReady = true) :
    (q.avail + 2).toNat = q.avail.toNat + 2 ∧ mem.contains (q.avail + 2) 2 = true := by
  obtain ⟨-, havail, -⟩ := h.rings hr
  have hoff : (2 : UInt64).toNat = 2 := rfl
  obtain ⟨haddr, hin⟩ := GuestRam.contains_sub (o := 2) (k := 2) havail (by omega)
  exact ⟨haddr, hin⟩

theorem ReadyOk.usedIdx (h : q.ReadyOk mem) (hr : q.isReady = true) :
    (q.used + 2).toNat = q.used.toNat + 2 ∧ mem.contains (q.used + 2) 2 = true := by
  obtain ⟨-, -, hused⟩ := h.rings hr
  have hoff : (2 : UInt64).toNat = 2 := rfl
  obtain ⟨haddr, hin⟩ := GuestRam.contains_sub (o := 2) (k := 2) hused (by omega)
  exact ⟨haddr, hin⟩

theorem ReadyOk.usedEntry (h : q.ReadyOk mem) (hr : q.isReady = true) (idx : UInt16) :
    (q.usedEntry idx).toNat = q.used.toNat + 4 + 8 * (idx.toNat % q.size.toNat) ∧
      (q.usedEntry idx + 4).toNat = q.used.toNat + 8 + 8 * (idx.toNat % q.size.toNat) ∧
      mem.contains (q.usedEntry idx) 8 = true ∧ mem.contains (q.usedEntry idx + 4) 4 = true := by
  obtain ⟨-, -, hused⟩ := h.rings hr
  have hpos := isReady_num_pos hr
  have hsize := q.size_toNat
  have hmod : idx.toNat % q.size.toNat < q.size.toNat := Nat.mod_lt _ (by omega)
  have hoff : ((idx % q.size).toUInt64 * 8).toNat = 8 * (idx.toNat % q.size.toNat) := by
    have := q.num_le
    simp [UInt64.toNat_mul]
    omega
  have hfour : (4 : UInt64).toNat = 4 := rfl
  obtain ⟨h4, hin4⟩ := GuestRam.contains_sub (o := 4) (k := 2 + 8 * q.num.toNat) hused (by omega)
  obtain ⟨haddr, hin⟩ := GuestRam.contains_sub (o := (idx % q.size).toUInt64 * 8) (k := 8) hin4
    (by omega)
  obtain ⟨haddr', hin'⟩ := GuestRam.contains_sub (o := 4) (k := 4) hin (by omega)
  have haddr₀ : (q.usedEntry idx).toNat = q.used.toNat + 4 + 8 * (idx.toNat % q.size.toNat) := by
    rw [Queue.usedEntry, haddr, h4, hoff, hfour]
  refine ⟨haddr₀, ?_, hin, hin'⟩
  rw [Queue.usedEntry] at haddr₀ ⊢
  rw [haddr', haddr₀, hfour]
  omega

end Ready

end Queue
