/-
The rings as the driver sees them.

`availEntry` and `usedElem` decode what stands in the avail and used rings, with
indices that run modulo 2¹⁶ over rings of a power-of-two size.

* `availEntry_read` — the device reads the head the driver put in the slot;
* `pushUsed_eq`, `usedElem_usedPoke` — one completion fills the next slot and moves the index, and
  touches nothing else;
* `usedSlot_apart` — a ring's worth of consecutive completions fills distinct
  slots, across the wrap of the index too.
-/
import HviVmm.Chains
import HviVmm.Mmio

open ByteCodec ByteStore

/-- A completed buffer as the used ring records it. -/
structure UsedElem where
  id : UInt32
  len : UInt32
  deriving DecidableEq, Repr

namespace Queue

variable {q : Queue}

/-- The head in the avail slot of `idx`. -/
def availEntry (q : Queue) (m : ℕ → UInt8) (idx : UInt16) : UInt16 :=
  UInt16.ofNat (leNat (peek m (q.avail.toNat + 4 + 2 * (idx.toNat % q.size.toNat)) 2))

/-- The heads in the `n` slots from `last` on. -/
def published (q : Queue) (m : ℕ → UInt8) : ℕ → UInt16 → List UInt16
  | 0, _ => []
  | n + 1, last => q.availEntry m last :: q.published m n (last + 1)

/-- The index field of the used ring. -/
def usedIdx (q : Queue) (m : ℕ → UInt8) : UInt16 :=
  UInt16.ofNat (leNat (peek m (q.used.toNat + 2) 2))

def usedSlot (q : Queue) (idx : UInt16) : ℕ × ℕ :=
  (q.used.toNat + 4 + 8 * (idx.toNat % q.size.toNat), 8)

def usedElem (q : Queue) (m : ℕ → UInt8) (idx : UInt16) : UsedElem where
  id := UInt32.ofNat (leNat (peek m (q.usedSlot idx).1 4))
  len := UInt32.ofNat (leNat (peek m ((q.usedSlot idx).1 + 4) 4))

/-- The elements in the `n` slots from `idx` on. -/
def usedElems (q : Queue) (m : ℕ → UInt8) : ℕ → UInt16 → List UsedElem
  | 0, _ => []
  | n + 1, idx => q.usedElem m idx :: q.usedElems m n (idx + 1)

/-- The addresses of the `n` slots from `idx` on. -/
def usedSlots (q : Queue) (idx : UInt16) (n : ℕ) : Set ℕ :=
  {x | ∃ i < n, x ∈ Range (q.usedSlot (idx + UInt16.ofNat i))}

/-- The index field's addresses. -/
def usedIdxField (q : Queue) : ℕ × ℕ := (q.used.toNat + 2, 2)

/-! ### Indices -/

theorem ofNat_succ_add (i : UInt16) (n : ℕ) :
    i + UInt16.ofNat (n + 1) = i + 1 + UInt16.ofNat n := by
  rw [UInt16.ofNat_add, UInt16.add_comm (UInt16.ofNat n), ← UInt16.add_assoc]
  rfl

/-- The size divides 2¹⁶, so wrapping an index does not move its slot. -/
theorem mod_size (hr : q.isReady = true) (n : ℕ) :
    n % 2 ^ 16 % q.size.toNat = n % q.size.toNat := by
  obtain ⟨k, hk, hs⟩ := isReady_size_pow hr
  rw [hs]
  exact Nat.mod_mod_of_dvd n (Nat.pow_dvd_pow 2 (by omega))

/-- **Distinct slots**: two indices less than a ring apart use different slots. -/
theorem usedSlot_apart (hr : q.isReady = true) (idx : UInt16) {i j : ℕ} (hij : i < j)
    (hj : j < i + q.size.toNat) :
    Apart (q.usedSlot (idx + UInt16.ofNat i)) (q.usedSlot (idx + UInt16.ofNat j)) := by
  have hslot : ∀ n : ℕ, (idx + UInt16.ofNat n).toNat % q.size.toNat =
      (idx.toNat + n) % q.size.toNat := by
    intro n
    rw [UInt16.toNat_add, UInt16.toNat_ofNat', mod_size hr, Nat.add_mod, mod_size hr, ← Nat.add_mod]
  have hne : (idx.toNat + i) % q.size.toNat ≠ (idx.toNat + j) % q.size.toNat := by
    intro h
    have hmod : (j - i) % q.size.toNat = 0 := by
      have hsub : idx.toNat + j - (idx.toNat + i) = j - i := by omega
      rw [← hsub]
      exact Nat.sub_mod_eq_zero_of_mod_eq h.symm
    rw [Nat.mod_eq_of_lt (by omega)] at hmod
    omega
  refine apart_of_le ?_
  simp only [usedSlot, hslot]
  omega

theorem usedSlots_succ (q : Queue) (idx : UInt16) (n : ℕ) :
    q.usedSlots idx (n + 1) = Range (q.usedSlot idx) ∪ q.usedSlots (idx + 1) n := by
  ext x
  simp only [usedSlots, Set.mem_ofPred_eq, Set.mem_union]
  constructor
  · rintro ⟨i, hi, hx⟩
    cases i with
    | zero =>
      left
      simpa using hx
    | succ i =>
      right
      rw [ofNat_succ_add] at hx
      exact ⟨i, by omega, hx⟩
  · rintro (hx | ⟨i, hi, hx⟩)
    · exact ⟨0, by omega, by simpa using hx⟩
    · exact ⟨i + 1, by omega, by rwa [ofNat_succ_add]⟩

/-- The first of a ring's worth of slots is clear of the others. -/
theorem usedSlots_clear (hr : q.isReady = true) (idx : UInt16) {n : ℕ} (hn : n < q.size.toNat) :
    ∀ x ∈ Range (q.usedSlot idx), x ∉ q.usedSlots (idx + 1) n := by
  rintro x hx ⟨i, hi, hxi⟩
  have hapart := usedSlot_apart hr idx (i := 0) (j := i + 1) (by omega) (by omega)
  have h0 : idx + UInt16.ofNat 0 = idx := UInt16.add_zero idx
  rw [h0, ofNat_succ_add] at hapart
  exact hapart x hx hxi

theorem usedSlot_subset (hr : q.isReady = true) (idx : UInt16) :
    Range (q.usedSlot idx) ⊆ Range q.usedRing := by
  have hmod : idx.toNat % q.size.toNat < q.size.toNat := by
    refine Nat.mod_lt _ ?_
    rw [size_toNat]
    exact isReady_num_pos hr
  rw [size_toNat] at hmod
  rintro x ⟨h1, h2⟩
  simp only [Range, usedSlot, usedRing, Set.mem_ofPred_eq, size_toNat] at h1 h2 ⊢
  omega

theorem usedIdxField_subset (q : Queue) : Range q.usedIdxField ⊆ Range q.usedRing := by
  rintro x ⟨h1, h2⟩
  simp only [Range, usedIdxField, usedRing, Set.mem_ofPred_eq] at h1 h2 ⊢
  omega

theorem usedIdxField_clear (q : Queue) (idx : UInt16) :
    ∀ x ∈ Range (q.usedSlot idx), x ∉ Range q.usedIdxField := by
  rintro x ⟨h1, -⟩ ⟨-, h2⟩
  simp only [usedSlot, usedIdxField] at h1 h2
  omega

/-! ### What the device reads and writes -/

section Ready

variable {q : Queue} {mem : GuestRam}
variable {m m' : ℕ → UInt8} {A : Set ℕ}

theorem availEntry_read (h : q.ReadyOk mem) (hr : q.isReady = true) (idx : UInt16) :
    ∃ slot, q.availSlot idx = some slot ∧ mem.readU16 slot = some (q.availEntry mem.bytes idx) := by
  obtain ⟨slot, hslot, haddr, hin⟩ := h.availSlot hr idx
  refine ⟨slot, hslot, ?_⟩
  rw [GuestRam.readU16, GuestRam.read_eq hin, haddr]
  rfl

theorem availEntry_congr (hr : q.isReady = true) (ha : AgreeOff A m m')
    (hd : ∀ x ∈ Range q.availRing, x ∉ A) (idx : UInt16) :
    q.availEntry m' idx = q.availEntry m idx := by
  have hmod : idx.toNat % q.size.toNat < q.size.toNat := by
    refine Nat.mod_lt _ ?_
    rw [size_toNat]
    exact isReady_num_pos hr
  rw [size_toNat] at hmod
  unfold availEntry
  rw [ha.peek fun x hx => hd x ?_]
  have h1 := hx.1
  have h2 := hx.2
  simp only [Range, availRing, Set.mem_ofPred_eq, size_toNat] at h1 h2 ⊢
  omega

theorem published_congr (h : ∀ idx, q.availEntry m' idx = q.availEntry m idx) (n : ℕ)
    (last : UInt16) : q.published m' n last = q.published m n last := by
  induction n generalizing last with
  | zero => rfl
  | succ n ih => rw [published, published, h, ih]

/-- The store a completion makes. -/
def usedPoke (q : Queue) (m : ℕ → UInt8) (head : UInt16) (len : UInt32) : ℕ → UInt8 :=
  let slot := (q.usedSlot (q.usedIdx m)).1
  poke (poke (poke m slot (leBytes 4 head.toUInt32.toNat)) (slot + 4) (leBytes 4 len.toNat))
    (q.used.toNat + 2) (leBytes 2 (q.usedIdx m + 1).toNat)

theorem pushUsed_eq (h : q.ReadyOk mem) (hr : q.isReady = true) (head : UInt16) (len : UInt32) :
    q.pushUsed mem head len = { mem with bytes := q.usedPoke mem.bytes head len } := by
  obtain ⟨haddr, hidx⟩ := h.usedIdx hr
  obtain ⟨hentry, hentry4, hin, hin4⟩ := h.usedEntry hr (q.usedIdx mem.bytes)
  have hread : mem.readU16 (q.used + 2) = some (q.usedIdx mem.bytes) := by
    rw [GuestRam.readU16, GuestRam.read_eq hidx, haddr]
    rfl
  have hsize : (q.size == 0) = false := by
    simpa using size_ne_zero (isReady_num_pos hr)
  have hw : ∀ (bytes : ℕ → UInt8) {gpa : UInt64} {w : ℕ} (n : ℕ), mem.contains gpa w = true →
      GuestRam.write { mem with bytes } gpa (leBytes w n) =
        some { mem with bytes := poke bytes gpa.toNat (leBytes w n) } :=
    fun bytes gpa _ _ hc => @GuestRam.write_eq { mem with bytes } gpa _ (by rwa [length_leBytes])
  have hin0 := GuestRam.contains_mono hin (k := 4) (by decide)
  have h1 := hw mem.bytes head.toUInt32.toNat hin0
  have h2 := hw (poke mem.bytes (q.usedEntry (q.usedIdx mem.bytes)).toNat
    (leBytes 4 head.toUInt32.toNat)) len.toNat hin4
  have h3 := hw (poke (poke mem.bytes (q.usedEntry (q.usedIdx mem.bytes)).toNat
    (leBytes 4 head.toUInt32.toNat)) (q.usedEntry (q.usedIdx mem.bytes) + 4).toNat
    (leBytes 4 len.toNat)) (q.usedIdx mem.bytes + 1).toNat hidx
  have hslot : (q.usedSlot (q.usedIdx mem.bytes)).1 + 4 =
      q.used.toNat + 8 + 8 * ((q.usedIdx mem.bytes).toNat % q.size.toNat) := by
    simp only [usedSlot]
    omega
  simp only [Queue.pushUsed, hsize, Bool.false_eq_true, if_false, hread, GuestRam.writeU32,
    GuestRam.writeU16, h1, h2, h3, Option.getD_some]
  rw [usedPoke, hentry, hentry4, haddr, hslot]
  rfl

/-- A completion touches the index field and its slot. -/
theorem agreeOff_usedPoke (q : Queue) (m : ℕ → UInt8) (head : UInt16) (len : UInt32) :
    AgreeOff (Range q.usedIdxField ∪ Range (q.usedSlot (q.usedIdx m))) m
      (q.usedPoke m head len) := by
  intro x hx
  simp only [Range, usedIdxField, usedSlot, Set.mem_union, Set.mem_ofPred_eq, not_or, not_and,
    not_lt] at hx
  unfold usedPoke
  rw [poke_outside (by simp; omega), poke_outside (by simp [usedSlot]; omega),
    poke_outside (by simp [usedSlot]; omega)]

theorem usedIdx_usedPoke (q : Queue) (m : ℕ → UInt8) (head : UInt16) (len : UInt32) :
    q.usedIdx (q.usedPoke m head len) = q.usedIdx m + 1 := by
  have hlt := (q.usedIdx m + 1).toNat_lt
  have hread : peek (q.usedPoke m head len) (q.used.toNat + 2) 2 =
      leBytes 2 (q.usedIdx m + 1).toNat := by
    have := peek_poke_same
      (poke (poke m (q.usedSlot (q.usedIdx m)).1 (leBytes 4 head.toUInt32.toNat))
        ((q.usedSlot (q.usedIdx m)).1 + 4) (leBytes 4 len.toNat))
      (q.used.toNat + 2) (leBytes 2 (q.usedIdx m + 1).toNat)
    rwa [length_leBytes] at this
  rw [usedIdx, hread, leNat_leBytes (by omega), UInt16.ofNat_toNat]

theorem usedElem_usedPoke (q : Queue) (m : ℕ → UInt8) (head : UInt16) (len : UInt32) :
    q.usedElem (q.usedPoke m head len) (q.usedIdx m) = ⟨head.toUInt32, len⟩ := by
  have hid : peek (q.usedPoke m head len) (q.usedSlot (q.usedIdx m)).1 4 =
      leBytes 4 head.toUInt32.toNat := by
    have := peek_poke_same m (q.usedSlot (q.usedIdx m)).1 (leBytes 4 head.toUInt32.toNat)
    rw [length_leBytes] at this
    unfold usedPoke
    rw [peek_poke_disjoint (by simp [usedSlot]), peek_poke_disjoint (by simp), this]
  have hlen : peek (q.usedPoke m head len) ((q.usedSlot (q.usedIdx m)).1 + 4) 4 =
      leBytes 4 len.toNat := by
    have := peek_poke_same (poke m (q.usedSlot (q.usedIdx m)).1 (leBytes 4 head.toUInt32.toNat))
      ((q.usedSlot (q.usedIdx m)).1 + 4) (leBytes 4 len.toNat)
    rw [length_leBytes] at this
    unfold usedPoke
    rw [peek_poke_disjoint (by simp [usedSlot]; omega), this]
  have h1 := head.toUInt32.toNat_lt
  have h2 := len.toNat_lt
  rw [usedElem, hid, hlen, leNat_leBytes (by omega), leNat_leBytes (by omega), UInt32.ofNat_toNat,
    UInt32.ofNat_toNat]

theorem usedElem_congr (ha : AgreeOff A m m') {idx : UInt16}
    (hd : ∀ x ∈ Range (q.usedSlot idx), x ∉ A) : q.usedElem m' idx = q.usedElem m idx := by
  have hpart : ∀ o n : ℕ, o + n ≤ 8 →
      peek m' ((q.usedSlot idx).1 + o) n = peek m ((q.usedSlot idx).1 + o) n := by
    intro o n hon
    refine ha.peek fun x hx => hd x ⟨?_, ?_⟩
    · have := hx.1
      simp only at this
      omega
    · have := hx.2
      simp only [usedSlot] at this ⊢
      omega
  have h0 := hpart 0 4 (by decide)
  rw [Nat.add_zero] at h0
  rw [usedElem, usedElem, h0, hpart 4 4 (by decide)]

theorem usedIdx_congr (ha : AgreeOff A m m') (hd : ∀ x ∈ Range q.usedIdxField, x ∉ A) :
    q.usedIdx m' = q.usedIdx m := by
  rw [usedIdx, usedIdx, ha.peek hd]

end Ready

end Queue
