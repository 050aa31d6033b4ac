/-
Moving bytes through descriptor chains.

A device gathers the readable buffers of a chain or fills the writable ones while it walks
it, one descriptor at a time.  What such a loop does is told by the buffers it meets:

* `Queue.gatherChain_eq_some` — the loop gathers the readable buffers, if they are in RAM
  and within the limit, of a walk that does not break off;
* `Queue.fillChain_eq` — the loop scatters the source over the writable buffers, also where
  its stores change the descriptors it reads later.
-/
import HviVmm.Chains

open ByteCodec ByteStore

theorem inRam_cons {mem : GuestRam} {seg : Seg} {segs : List Seg} :
    InRam mem (seg :: segs) ↔ mem.contains seg.1 seg.2.toNat = true ∧ InRam mem segs :=
  List.forall_mem_cons

theorem inRam_append {mem : GuestRam} {segs segs' : List Seg} :
    InRam mem (segs ++ segs') ↔ InRam mem segs ∧ InRam mem segs' :=
  List.forall_mem_append

theorem spans_append (segs segs' : List Seg) : spans (segs ++ segs') = spans segs ++ spans segs' :=
  List.map_append

theorem totalLen_append (segs segs' : List Seg) :
    totalLen (segs ++ segs') = totalLen segs + totalLen segs' := by
  simp [totalLen, total, spans]

theorem readable_cons (desc : Desc) (ds : List Desc) :
    readable (desc :: ds) = if desc.isWrite then readable ds else desc.seg :: readable ds := by
  cases h : desc.isWrite <;> simp [readable, h]

theorem writable_cons (desc : Desc) (ds : List Desc) :
    writable (desc :: ds) = if desc.isWrite then desc.seg :: writable ds else writable ds := by
  cases h : desc.isWrite <;> simp [writable, h]

namespace Queue

variable {q : Queue} {mem : GuestRam}

/-! ### Gathering -/

/-- Adds the bytes of one descriptor to `buf`, if it is readable. -/
def gatherDesc (mem : GuestRam) (limit : ℕ) (desc : Desc) (buf : List UInt8) :
    Option (List UInt8) :=
  if desc.isWrite then some buf
  -- the length is the guest's, so it is checked before it sizes anything
  else if limit < buf.length + desc.len.toNat then none
  else (mem.read desc.addr desc.len.toNat).map (buf ++ ·)

/-- The readable bytes of the chain from `d` on, after those in `buf`; `none` if a descriptor
or a buffer cannot be read, or the bytes go over the limit. -/
def gatherChain (q : Queue) (mem : GuestRam) (limit : ℕ) :
    ℕ → UInt16 → List UInt8 → Option (List UInt8)
  | 0, _, buf => some buf
  | budget + 1, d, buf => do
    let desc ← q.readDesc mem d
    let buf ← gatherDesc mem limit desc buf
    if desc.hasNext then q.gatherChain mem limit budget desc.next buf else some buf

/-- One descriptor, as the buffers of the chain have it. -/
theorem gatherDesc_eq_some {limit : ℕ} {desc : Desc} {buf out : List UInt8}
    (hbuf : buf.length ≤ limit) :
    gatherDesc mem limit desc buf = some out ↔
      buf.length + totalLen (readable [desc]) ≤ limit ∧ InRam mem (readable [desc]) ∧
        out = buf ++ gather mem.bytes (spans (readable [desc])) := by
  rw [gatherDesc, readable_cons]
  split
  · next hw =>
    have hnone : readable [] = [] := rfl
    simp only [hnone, totalLen, spans, List.map_nil, total_nil, gather_nil, List.append_nil,
      Option.some.injEq, Nat.add_zero, hbuf, true_and]
    constructor
    · intro heq
      exact ⟨List.forall_mem_nil _, heq.symm⟩
    · intro heq
      exact heq.2.symm
  · have hone : readable [] = [] := rfl
    have htotal : totalLen [desc.seg] = desc.len.toNat := by
      simp [totalLen, spans, span, Desc.seg]
    have hgather : gather mem.bytes (spans [desc.seg]) =
        peek mem.bytes desc.addr.toNat desc.len.toNat := by
      simp [spans, span, Desc.seg]
    rw [hone, htotal, hgather, inRam_cons]
    split
    · next hlong =>
      simp only [reduceCtorEq, false_iff]
      omega
    · next hshort =>
      rw [Option.map_eq_some_iff]
      constructor
      · rintro ⟨bs, hread, rfl⟩
        obtain ⟨hin, rfl⟩ := GuestRam.read_eq_some hread
        exact ⟨by omega, ⟨hin, List.forall_mem_nil _⟩, rfl⟩
      · rintro ⟨-, ⟨hin, -⟩, rfl⟩
        exact ⟨_, GuestRam.read_eq hin, rfl⟩

theorem readable_cons_append (desc : Desc) (ds : List Desc) :
    readable (desc :: ds) = readable [desc] ++ readable ds := by
  rw [readable_cons, readable_cons]
  split <;> rfl

/-- **The loop gathers the readable buffers** of a walk that does not break off. -/
theorem gatherChain_eq_some {limit : ℕ} {budget : ℕ} {d : UInt16} {buf out : List UInt8}
    (hbuf : buf.length ≤ limit) :
    q.gatherChain mem limit budget d buf = some out ↔
      (q.walk mem budget d).2 ≠ .broken ∧
        buf.length + totalLen (readable (q.walk mem budget d).1) ≤ limit ∧
        InRam mem (readable (q.walk mem budget d).1) ∧
        out = buf ++ gather mem.bytes (spans (readable (q.walk mem budget d).1)) := by
  induction budget generalizing d buf with
  | zero =>
    have hnone : readable [] = [] := rfl
    simp only [gatherChain, walk, Option.some.injEq, hnone]
    constructor
    · rintro rfl
      exact ⟨by decide, hbuf, List.forall_mem_nil _, (List.append_nil _).symm⟩
    · rintro ⟨-, -, -, rfl⟩
      exact (List.append_nil _).symm
  | succ budget ih =>
    rw [gatherChain, walk]
    cases q.readDesc mem d with
    | none => simp
    | some desc =>
      simp only [Option.bind_eq_bind, Option.bind_some]
      rw [Option.bind_eq_some_iff]
      by_cases hnext : desc.hasNext = true
      · simp only [hnext, if_true]
        rw [readable_cons_append, totalLen_append, inRam_append, spans_append, gather_append]
        constructor
        · rintro ⟨buf₁, hone, hrest⟩
          obtain ⟨hle, hin, rfl⟩ := (gatherDesc_eq_some hbuf).mp hone
          rw [ih (by simpa [totalLen] using hle)] at hrest
          obtain ⟨hend, hle', hin', rfl⟩ := hrest
          rw [List.length_append, length_gather] at hle'
          exact ⟨hend, by rw [totalLen]; omega, ⟨hin, hin'⟩, List.append_assoc ..⟩
        · rintro ⟨hend, hle, ⟨hin, hin'⟩, rfl⟩
          have hle₁ : buf.length + totalLen (readable [desc]) ≤ limit := by omega
          refine ⟨_, (gatherDesc_eq_some hbuf).mpr ⟨hle₁, hin, rfl⟩, ?_⟩
          rw [ih (by simpa [totalLen] using hle₁)]
          refine ⟨hend, ?_, hin', (List.append_assoc ..).symm⟩
          rw [List.length_append, length_gather, ← totalLen]
          omega
      · simp only [hnext, Bool.false_eq_true, if_false]
        constructor
        · rintro ⟨buf₁, hone, heq⟩
          cases heq
          exact ⟨by decide, (gatherDesc_eq_some hbuf).mp hone⟩
        · rintro ⟨-, hone⟩
          exact ⟨out, (gatherDesc_eq_some hbuf).mpr hone, rfl⟩

/-! ### Filling -/

/-- Writes the front of `rest` into one descriptor's buffer, if it is writable, and returns
what is left. -/
def fillDesc (mem : GuestRam) (desc : Desc) (rest : List UInt8) : Option (List UInt8) × GuestRam :=
  if desc.isWrite ∧ rest ≠ [] then
    match mem.write desc.addr (rest.take desc.len.toNat) with
    | none => (none, mem)
    | some mem => (some (rest.drop desc.len.toNat), mem)
  else (some rest, mem)

/-- Writes `rest` across the writable buffers of the chain from `d` on and returns what did not
fit; `none` if a descriptor cannot be read or a store is refused. -/
def fillChain (q : Queue) : ℕ → UInt16 → GuestRam → List UInt8 → Option (List UInt8) × GuestRam
  | 0, _, mem, rest => (some rest, mem)
  | budget + 1, d, mem, rest =>
    match q.readDesc mem d with
    | none => (none, mem)
    | some desc =>
      match fillDesc mem desc rest with
      | (none, mem) => (none, mem)
      | (some rest, mem) =>
        if desc.hasNext then q.fillChain budget desc.next mem rest else (some rest, mem)

theorem fillDesc_regions (mem : GuestRam) (desc : Desc) (rest : List UInt8) :
    (fillDesc mem desc rest).2.regions = mem.regions := by
  unfold fillDesc
  split
  · split
    · rfl
    · next hw => exact (GuestRam.write_bytes hw).2.1
  · rfl

theorem fillChain_regions (q : Queue) (budget : ℕ) (d : UInt16) (mem : GuestRam)
    (rest : List UInt8) : (q.fillChain budget d mem rest).2.regions = mem.regions := by
  induction budget generalizing d mem rest with
  | zero => rfl
  | succ budget ih =>
    rw [fillChain]
    split
    · rfl
    · next desc _ =>
      have hone := fillDesc_regions mem desc rest
      split
      · next hfill =>
        rw [hfill] at hone
        exact hone
      · next hfill =>
        rw [hfill] at hone
        split
        · exact (ih _ _ _).trans hone
        · exact hone

/-- The pieces that `fillChain` stores `rest` into, as the walk meets them: a descriptor is read
after the stores into the buffers before it.  The flag says whether the walk came to its end. -/
def fillPieces (q : Queue) : ℕ → UInt16 → GuestRam → List UInt8 → List (ℕ × ℕ) × Bool
  | 0, _, _, _ => ([], true)
  | budget + 1, d, mem, rest =>
    match q.readDesc mem d with
    | none => ([], false)
    | some desc =>
      let here := filled (spans (writable [desc])) rest.length
      match fillDesc mem desc rest with
      | (none, _) => ([], false)
      | (some left, mem) =>
        if desc.hasNext then
          let later := q.fillPieces budget desc.next mem left
          (here ++ later.1, later.2)
        else (here, true)

/-- One descriptor's store is a scatter over its piece. -/
theorem fillDesc_spec (mem : GuestRam) (desc : Desc) (rest : List UInt8) :
    fillDesc mem desc rest = (none, mem) ∨
      ∃ mem', fillDesc mem desc rest =
          (some (rest.drop (total (filled (spans (writable [desc])) rest.length))), mem') ∧
        mem'.bytes = scatter mem.bytes (filled (spans (writable [desc])) rest.length) rest := by
  have hdrop : rest.drop (total (filled (spans (writable [desc])) rest.length)) =
      rest.drop (totalLen (writable [desc])) := by
    rw [total_filled]
    rcases Nat.le_total (total (spans (writable [desc]))) rest.length with hle | hle
    · rw [Nat.min_eq_left hle]
      rfl
    · rw [Nat.min_eq_right hle, List.drop_length]
      exact (List.drop_eq_nil_of_le hle).symm
  rw [hdrop, scatter_filled, fillDesc, writable_cons]
  by_cases hw : desc.isWrite = true
  · by_cases hrest : rest = []
    · exact .inr ⟨mem, by simp [hrest], by simp [hrest]⟩
    · rw [if_pos ⟨hw, hrest⟩, if_pos hw]
      cases hstore : mem.write desc.addr (rest.take desc.len.toNat) with
      | none => exact .inl rfl
      | some mem' => exact .inr ⟨mem', rfl, (GuestRam.write_bytes hstore).2.2⟩
  · rw [if_neg fun h => hw h.1, if_neg hw]
    exact .inr ⟨mem, rfl, rfl⟩

theorem total_fillPieces_le (q : Queue) (budget : ℕ) (d : UInt16) (mem : GuestRam)
    (rest : List UInt8) : total (q.fillPieces budget d mem rest).1 ≤ rest.length := by
  induction budget generalizing d mem rest with
  | zero => exact Nat.zero_le _
  | succ budget ih =>
    rw [fillPieces]
    cases q.readDesc mem d with
    | none => exact Nat.zero_le _
    | some desc =>
      have hhere : total (filled (spans (writable [desc])) rest.length) ≤ rest.length := by
        rw [total_filled]
        exact Nat.min_le_right _ _
      rcases fillDesc_spec mem desc rest with hnone | ⟨mem', hsome, -⟩
      · simp only [hnone]
        exact Nat.zero_le _
      · simp only [hsome]
        split
        · have hlater := ih desc.next mem'
            (rest.drop (total (filled (spans (writable [desc])) rest.length)))
          rw [List.length_drop] at hlater
          rw [total_append]
          omega
        · exact hhere

/-- **The loop is a scatter** over the pieces it meets. -/
theorem fillChain_eq (q : Queue) (budget : ℕ) (d : UInt16) (mem : GuestRam) (rest : List UInt8) :
    (q.fillChain budget d mem rest).1 = (if (q.fillPieces budget d mem rest).2 then
        some (rest.drop (total (q.fillPieces budget d mem rest).1)) else none) ∧
      (q.fillChain budget d mem rest).2.bytes =
        scatter mem.bytes (q.fillPieces budget d mem rest).1 rest := by
  induction budget generalizing d mem rest with
  | zero => exact ⟨rfl, rfl⟩
  | succ budget ih =>
    rw [fillChain, fillPieces]
    cases q.readDesc mem d with
    | none => exact ⟨rfl, rfl⟩
    | some desc =>
      rcases fillDesc_spec mem desc rest with hnone | ⟨mem', hsome, hbytes⟩
      · simp only [hnone]
        exact ⟨rfl, rfl⟩
      · simp only [hsome]
        split
        · obtain ⟨hleft, hmem⟩ := ih desc.next mem' _
          rw [hleft, hmem, hbytes, total_append, scatter_append, List.drop_drop]
          exact ⟨rfl, rfl⟩
        · exact ⟨rfl, hbytes⟩

end Queue
