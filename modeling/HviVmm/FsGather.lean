/-
Gathering a request from its descriptors.

* `gatherBytes_take` — the header gathered alone is the front of the request gathered
  whole, so both paths of a request see one opcode.
-/
import HviVmm.FsServe

open CallPrograms Fuse ByteStore

/-- What was gathered so far is the front of the result. -/
theorem gatherFrom_isPrefix {mem : GuestRam} {skip want : ℕ} {segs : List Seg} {pos : ℕ}
    {got raw : Bytes} (h : gatherFrom mem skip want segs pos got = some raw) :
    ∃ rest, raw = got ++ rest := by
  induction segs generalizing pos got with
  | nil =>
    rw [gatherFrom] at h
    split at h
    · cases h
    · cases h
      exact ⟨[], (List.append_nil _).symm⟩
  | cons seg segs ih =>
    obtain ⟨addr, len⟩ := seg
    rw [gatherFrom] at h
    split at h
    · cases h
      exact ⟨[], (List.append_nil _).symm⟩
    · dsimp only at h
      split at h
      · split at h
        · split at h
          · obtain ⟨rest, hrest⟩ := ih h
            exact ⟨_, by rw [hrest, List.append_assoc]⟩
          · cases h
        · cases h
      · exact ih h

/-- A gather of fewer bytes is the front of a gather of more. -/
theorem gatherFrom_take {mem : GuestRam} {n m : ℕ} (hnm : n ≤ m) {segs : List Seg} {pos : ℕ}
    {got raw : Bytes} (h : gatherFrom mem 0 m segs pos got = some raw) (hgot : got.length ≤ m) :
    gatherFrom mem 0 n segs pos (got.take n) = some (raw.take n) := by
  induction segs generalizing pos got with
  | nil =>
    rw [gatherFrom] at h ⊢
    split at h
    · cases h
    · cases h
      rw [if_neg]
      rw [List.length_take]
      omega
  | cons seg segs ih =>
    obtain ⟨addr, len⟩ := seg
    have hpre := gatherFrom_isPrefix h
    by_cases hn : n ≤ got.length
    · -- the shorter gather has all it asks for
      obtain ⟨rest, rfl⟩ := hpre
      rw [gatherFrom, if_pos (by rw [List.length_take]; omega), List.take_append_of_le_length hn]
    · have hlt : got.length < n := by omega
      have htake : got.take n = got := List.take_of_length_le hlt.le
      rw [gatherFrom, if_neg (by omega)] at h
      rw [htake, gatherFrom, if_neg (by omega)]
      dsimp only at h ⊢
      split at h
      · next hdesc =>
        rw [if_pos hdesc]
        split at h
        · next haddr =>
          rw [if_pos haddr]
          split at h
          · next bytes hread =>
            obtain ⟨hcontains, rfl⟩ := GuestRam.read_eq_some hread
            set start := 0 - pos
            set availN := min (len.toNat - start) (n - got.length) with hN
            set availM := min (len.toNat - start) (m - got.length) with hM
            have hle : availN ≤ availM := by omega
            rw [GuestRam.read_eq (GuestRam.contains_mono hcontains hle)]
            have hih := ih h (by rw [List.length_append, length_peek]; omega)
            rw [List.take_append, htake, take_peek] at hih
            have hmin : min (n - got.length) availM = availN := by omega
            rwa [hmin] at hih
          · cases h
        · cases h
      · next hdesc =>
        rw [if_neg hdesc]
        have hih := ih h hgot
        rwa [htake] at hih

/-- **The header is the front of the request.** -/
theorem gatherBytes_take {mem : GuestRam} {segs : List Seg} {n m : ℕ} {front raw : Bytes}
    (hnm : n ≤ m) (hfront : gatherBytes mem segs 0 n = some front)
    (hraw : gatherBytes mem segs 0 m = some raw) : front = raw.take n := by
  have h := gatherFrom_take hnm hraw (Nat.zero_le m)
  rw [List.take_nil] at h
  exact Option.some.inj (hfront.symm.trans h)

/-- A field that lies in the front of a buffer is read from the front. -/
theorem getU32_take {raw : Bytes} {offset n : ℕ} (h : offset + 4 ≤ n) :
    getU32 (raw.take n) offset = getU32 raw offset := by
  unfold getU32
  rw [List.length_take, List.drop_take, List.take_take, min_eq_left (by omega : 4 ≤ n - offset)]
  by_cases hlen : offset + 4 ≤ raw.length
  · rw [if_pos hlen, if_pos (by omega)]
  · rw [if_neg hlen, if_neg (by omega)]
