/-
Scatter and gather over a byte store.

A list of ranges `(address, length)` names a sequence of bytes.  `gather` reads
them in order, `scatter` writes a source across them, each range up to its
length:

* `scatter_outside` — a scatter changes nothing outside its ranges;
* `gather_scatter` — ranges that do not overlap hold the source after a scatter,
  and what the source did not reach is as it was;
* `scatter_filled` — a scatter writes to the ranges its source reaches, cut to what it fills;
* `AgreeOff` — two stores that agree off a set of addresses, the shape of every
  frame condition.
-/
import HviVmm.ByteStore
import Mathlib.Data.Set.Basic

namespace ByteStore

/-- The addresses of a range. -/
def Range (s : ℕ × ℕ) : Set ℕ := {x | s.1 ≤ x ∧ x < s.1 + s.2}

/-- The addresses of any of the ranges. -/
def Covered (segs : List (ℕ × ℕ)) : Set ℕ := {x | ∃ s ∈ segs, x ∈ Range s}

/-- Two ranges share no address. -/
def Apart (s t : ℕ × ℕ) : Prop := ∀ x ∈ Range s, x ∉ Range t

/-- How many bytes the ranges hold. -/
def total (segs : List (ℕ × ℕ)) : ℕ := (segs.map Prod.snd).sum

def gather (m : ℕ → UInt8) (segs : List (ℕ × ℕ)) : List UInt8 :=
  segs.flatMap fun s => peek m s.1 s.2

/-- Writes `src` across the ranges in order. -/
def scatter (m : ℕ → UInt8) : List (ℕ × ℕ) → List UInt8 → (ℕ → UInt8)
  | [], _ => m
  | s :: segs, src => scatter (poke m s.1 (src.take s.2)) segs (src.drop s.2)

/-- The stores agree off `A`. -/
def AgreeOff (A : Set ℕ) (m m' : ℕ → UInt8) : Prop := ∀ x, x ∉ A → m' x = m x

variable {m m' m'' : ℕ → UInt8} {s t : ℕ × ℕ} {segs : List (ℕ × ℕ)} {src : List UInt8} {A B : Set ℕ}

/-! ### Ranges -/

theorem Apart.symm (h : Apart s t) : Apart t s := fun x ht hs => h x hs ht

theorem apart_of_le (h : s.1 + s.2 ≤ t.1 ∨ t.1 + t.2 ≤ s.1) : Apart s t := by
  intro x hs ht
  simp only [Range, Set.mem_ofPred_eq] at hs ht
  omega

@[simp] theorem total_nil : total [] = 0 := rfl

@[simp] theorem total_cons (s : ℕ × ℕ) (segs : List (ℕ × ℕ)) :
    total (s :: segs) = s.2 + total segs := by
  simp [total]

@[simp] theorem gather_nil (m : ℕ → UInt8) : gather m [] = [] := rfl

@[simp] theorem gather_cons (m : ℕ → UInt8) (s : ℕ × ℕ) (segs : List (ℕ × ℕ)) :
    gather m (s :: segs) = peek m s.1 s.2 ++ gather m segs := by
  simp [gather]

theorem gather_append (m : ℕ → UInt8) (segs segs' : List (ℕ × ℕ)) :
    gather m (segs ++ segs') = gather m segs ++ gather m segs' :=
  List.flatMap_append

@[simp] theorem length_gather (m : ℕ → UInt8) (segs : List (ℕ × ℕ)) :
    (gather m segs).length = total segs := by
  induction segs with
  | nil => rfl
  | cons s segs ih => simp [ih]

theorem mem_covered_cons {x : ℕ} : x ∈ Covered (s :: segs) ↔ x ∈ Range s ∨ x ∈ Covered segs := by
  simp [Covered]

/-! ### Agreement -/

theorem AgreeOff.refl (A : Set ℕ) (m : ℕ → UInt8) : AgreeOff A m m := fun _ _ => rfl

theorem AgreeOff.trans (h : AgreeOff A m m') (h' : AgreeOff A m' m'') : AgreeOff A m m'' :=
  fun x hx => (h' x hx).trans (h x hx)

theorem AgreeOff.mono (h : AgreeOff A m m') (hAB : A ⊆ B) : AgreeOff B m m' :=
  fun x hx => h x fun ha => hx (hAB ha)

theorem agreeOff_poke (m : ℕ → UInt8) (a : ℕ) (bs : List UInt8) :
    AgreeOff (Range (a, bs.length)) m (poke m a bs) := by
  intro x hx
  simp only [Range, Set.mem_ofPred_eq, not_and, not_lt] at hx
  refine poke_outside ?_
  by_cases ha : a ≤ x
  · exact .inr (hx ha)
  · exact .inl (by omega)

/-- A read is not changed where the stores agree. -/
theorem AgreeOff.peek (h : AgreeOff A m m') {a n : ℕ} (hd : ∀ x ∈ Range (a, n), x ∉ A) :
    ByteStore.peek m' a n = ByteStore.peek m a n :=
  peek_congr fun x h1 h2 => h x (hd x ⟨h1, h2⟩)

theorem AgreeOff.gather (h : AgreeOff A m m') (hd : ∀ x ∈ Covered segs, x ∉ A) :
    ByteStore.gather m' segs = ByteStore.gather m segs := by
  induction segs with
  | nil => rfl
  | cons s segs ih =>
    rw [gather_cons, gather_cons, h.peek fun x hx => hd x (mem_covered_cons.mpr (.inl hx)),
      ih fun x hx => hd x (mem_covered_cons.mpr (.inr hx))]

/-! ### Scatter -/

@[simp] theorem scatter_empty (m : ℕ → UInt8) (segs : List (ℕ × ℕ)) : scatter m segs [] = m := by
  induction segs with
  | nil => rfl
  | cons s segs ih => simp [scatter, ih]

theorem total_append (segs segs' : List (ℕ × ℕ)) :
    total (segs ++ segs') = total segs + total segs' := by
  simp [total]

theorem scatter_append (m : ℕ → UInt8) (segs segs' : List (ℕ × ℕ)) (src : List UInt8) :
    scatter m (segs ++ segs') src = scatter (scatter m segs src) segs' (src.drop (total segs)) := by
  induction segs generalizing m src with
  | nil => rfl
  | cons s segs ih => rw [List.cons_append, scatter, scatter, ih, total_cons, List.drop_drop]

theorem scatter_take (m : ℕ → UInt8) (segs : List (ℕ × ℕ)) (src : List UInt8) :
    scatter m segs (src.take (total segs)) = scatter m segs src := by
  induction segs generalizing m src with
  | nil => rfl
  | cons s segs ih =>
    rw [scatter, scatter, total_cons, List.take_take, Nat.min_eq_left (Nat.le_add_right _ _),
      List.drop_take, Nat.add_sub_cancel_left, ih]

/-- **A scatter changes nothing outside its ranges.** -/
theorem scatter_outside (m : ℕ → UInt8) (segs : List (ℕ × ℕ)) (src : List UInt8) :
    AgreeOff (Covered segs) m (scatter m segs src) := by
  induction segs generalizing m src with
  | nil => exact AgreeOff.refl _ m
  | cons s segs ih =>
    have hhead : AgreeOff (Covered (s :: segs)) m (poke m s.1 (src.take s.2)) := by
      refine (agreeOff_poke m s.1 (src.take s.2)).mono fun x hx => ?_
      refine mem_covered_cons.mpr (.inl ⟨hx.1, ?_⟩)
      have hlt := hx.2
      simp only [List.length_take] at hlt
      omega
    have htail := (ih (poke m s.1 (src.take s.2)) (src.drop s.2)).mono
      (B := Covered (s :: segs)) fun x hx => mem_covered_cons.mpr (.inr hx)
    exact hhead.trans htail

/-- One range after the source has been written over its front. -/
theorem peek_poke_front (m : ℕ → UInt8) (a n : ℕ) (bs : List UInt8) (h : bs.length ≤ n) :
    peek (poke m a bs) a n = bs ++ (peek m a n).drop bs.length := by
  obtain ⟨k, rfl⟩ := Nat.exists_eq_add_of_le h
  rw [peek_add, peek_poke_same, peek_poke_disjoint (.inr (by omega)), peek_add,
    List.drop_left' (length_peek m a bs.length)]

/-- **The ranges hold the source after a scatter**, as far as either goes, and
keep the rest. -/
theorem gather_scatter (m : ℕ → UInt8) (segs : List (ℕ × ℕ)) (src : List UInt8)
    (hd : segs.Pairwise Apart) :
    gather (scatter m segs src) segs =
      src.take (total segs) ++ (gather m segs).drop src.length := by
  induction segs generalizing m src with
  | nil => simp
  | cons s segs ih =>
    obtain ⟨hs, hd'⟩ := List.pairwise_cons.mp hd
    have hrest : ∀ x ∈ Range s, x ∉ Covered segs := by
      rintro x hx ⟨t, ht, hxt⟩
      exact hs t ht x hx hxt
    have hfront : peek (scatter (poke m s.1 (src.take s.2)) segs (src.drop s.2)) s.1 s.2 =
        src.take s.2 ++ (peek m s.1 s.2).drop (src.take s.2).length := by
      rw [(scatter_outside _ segs (src.drop s.2)).peek hrest]
      exact peek_poke_front m s.1 s.2 _ (by simp)
    have hback : gather (poke m s.1 (src.take s.2)) segs = gather m segs := by
      refine (agreeOff_poke m s.1 (src.take s.2)).gather ?_
      rintro x hx ⟨h1, h2⟩
      refine hrest x ⟨h1, ?_⟩ hx
      simp only [List.length_take] at h2
      omega
    rw [scatter, gather_cons, hfront, ih _ _ hd', hback, gather_cons, total_cons]
    rw [List.drop_append, length_peek]
    by_cases hle : s.2 ≤ src.length
    · -- the source fills this range and goes on
      have hfull : (peek m s.1 s.2).drop (src.take s.2).length = [] :=
        List.drop_eq_nil_of_le (by simp; omega)
      have hpast : (peek m s.1 s.2).drop src.length = [] := List.drop_eq_nil_of_le (by simpa)
      rw [hfull, hpast, List.append_nil, List.nil_append, List.take_add, List.append_assoc,
        List.length_drop]
    · -- the source ends in this range
      have hall : src.take s.2 = src := List.take_of_length_le (by omega)
      have hall' : src.take (s.2 + total segs) = src := List.take_of_length_le (by omega)
      have hnone : src.drop s.2 = [] := List.drop_eq_nil_of_le (by omega)
      have hzero : src.length - s.2 = 0 := by omega
      rw [hall, hall', hnone, hzero]
      simp

/-! ### The part that is written -/

/-- The front of the ranges that `n` bytes fill, range by range. -/
def filled : List (ℕ × ℕ) → ℕ → List (ℕ × ℕ)
  | [], _ => []
  | s :: segs, n => (s.1, min s.2 n) :: filled segs (n - s.2)

theorem total_filled (segs : List (ℕ × ℕ)) (n : ℕ) :
    total (filled segs n) = min (total segs) n := by
  induction segs generalizing n with
  | nil => simp [filled]
  | cons s segs ih =>
    rw [filled, total_cons, total_cons, ih]
    omega

theorem mem_covered_append {x : ℕ} {segs' : List (ℕ × ℕ)} :
    x ∈ Covered (segs ++ segs') ↔ x ∈ Covered segs ∨ x ∈ Covered segs' := by
  simp only [Covered, Set.mem_ofPred_eq, List.mem_append]
  constructor
  · rintro ⟨s, hs | hs, hx⟩
    · exact .inl ⟨s, hs, hx⟩
    · exact .inr ⟨s, hs, hx⟩
  · rintro (⟨s, hs, hx⟩ | ⟨s, hs, hx⟩)
    · exact ⟨s, .inl hs, hx⟩
    · exact ⟨s, .inr hs, hx⟩

theorem scatter_filled (m : ℕ → UInt8) (segs : List (ℕ × ℕ)) (src : List UInt8) :
    scatter m (filled segs src.length) src = scatter m segs src := by
  induction segs generalizing m src with
  | nil => rfl
  | cons s segs ih =>
    have htake : src.take (min s.2 src.length) = src.take s.2 := by
      rw [← List.take_take, List.take_of_length_le (Nat.le_refl src.length)]
    have hdrop : src.drop (min s.2 src.length) = src.drop s.2 := by
      rcases Nat.le_total s.2 src.length with hle | hle
      · rw [Nat.min_eq_left hle]
      · rw [Nat.min_eq_right hle, List.drop_length, List.drop_of_length_le hle]
    have hlen : src.length - s.2 = (src.drop s.2).length := by rw [List.length_drop]
    rw [filled, scatter, scatter, htake, hdrop, hlen, ih]

end ByteStore
