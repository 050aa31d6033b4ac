/-
A byte-addressed store: finite reads and writes over a total map `ℕ → UInt8`.

`peek m a n` is the list of the `n` bytes from address `a`, `poke m a bs` the
store with `bs` written there.  The lemmas say how the two meet:

* `peek_poke_same` — a write is read back;
* `peek_poke_disjoint` — a write elsewhere is not seen;
* `peek_add` — a read splits at any point.
-/
import Mathlib.Algebra.GroupWithZero.Nat
import Mathlib.Tactic.Common

namespace ByteStore

/-- The `n` bytes from address `a` on. -/
def peek (m : ℕ → UInt8) (a n : ℕ) : List UInt8 := (List.range n).map fun i => m (a + i)

/-- The store with `bs` written from address `a` on. -/
def poke (m : ℕ → UInt8) (a : ℕ) (bs : List UInt8) : ℕ → UInt8 := fun x =>
  if a ≤ x then bs[x - a]?.getD (m x) else m x

variable {m m' : ℕ → UInt8} {a b n k x : ℕ} {bs : List UInt8}

@[simp] theorem length_peek (m : ℕ → UInt8) (a n : ℕ) : (peek m a n).length = n := by
  simp [peek]

theorem getElem?_peek (h : k < n) : (peek m a n)[k]? = some (m (a + k)) := by
  simp [peek, h]

/-- A read is determined by the bytes of its range. -/
theorem peek_congr (h : ∀ x, a ≤ x → x < a + n → m x = m' x) : peek m a n = peek m' a n := by
  refine List.map_congr_left fun i hi => ?_
  rw [List.mem_range] at hi
  exact h (a + i) (by omega) (by omega)

theorem peek_add (m : ℕ → UInt8) (a n k : ℕ) :
    peek m a (n + k) = peek m a n ++ peek m (a + n) k := by
  simp only [peek, List.range_add, List.map_append, List.map_map]
  congr 1
  refine List.map_congr_left fun i _ => ?_
  simp [Nat.add_assoc]

theorem take_peek (m : ℕ → UInt8) (a n k : ℕ) : (peek m a n).take k = peek m a (min k n) := by
  rw [peek, ← List.map_take, List.take_range, peek]

theorem poke_outside (h : x < a ∨ a + bs.length ≤ x) : poke m a bs x = m x := by
  unfold poke
  by_cases hx : a ≤ x
  · rw [if_pos hx, List.getElem?_eq_none (by omega)]
    rfl
  · rw [if_neg hx]

theorem poke_inside (h : k < bs.length) : poke m a bs (a + k) = bs[k] := by
  unfold poke
  rw [if_pos (Nat.le_add_right a k), Nat.add_sub_cancel_left, List.getElem?_eq_getElem h]
  rfl

@[simp] theorem poke_nil (m : ℕ → UInt8) (a : ℕ) : poke m a [] = m := by
  funext x
  exact poke_outside (by simp; omega)

/-- **A write is read back.** -/
theorem peek_poke_same (m : ℕ → UInt8) (a : ℕ) (bs : List UInt8) :
    peek (poke m a bs) a bs.length = bs := by
  apply List.ext_getElem?
  intro k
  by_cases hk : k < bs.length
  · rw [getElem?_peek hk, poke_inside hk, List.getElem?_eq_getElem hk]
  · rw [List.getElem?_eq_none (by simp; omega), List.getElem?_eq_none (by omega)]

/-- **A write elsewhere is not seen.** -/
theorem peek_poke_disjoint (h : a + n ≤ b ∨ b + bs.length ≤ a) :
    peek (poke m b bs) a n = peek m a n :=
  peek_congr fun _ h1 h2 => poke_outside (by omega)

end ByteStore
