/-
Reads of a byte slice, and stores into one, that are checked.

A function over slices may return a value, give up (a `get` that finds nothing, with `?`), or
panic (an index outside the slice); `Checked` tells the three apart.  What is read is told by
what the slice holds from an offset on: `bs.drop p = field ++ rest`.

* `get_at`, `index_at`, `getRange_at`, `u16_at` — a field is read at the offset where it stands;
* `Checked.Total` — a function that never panics, with one rule for each way to build one;
* `Fills` — stores that stay inside a slice of a known length;
* `Checked.Certain` — a function that never gives up.
-/
import HviVmm.ByteCodec
import Mathlib.Data.List.Basic

open ByteCodec

/-- How a function over slices ends. -/
inductive Checked (α : Type) where
  | done (a : α)
  /-- It returns `None`. -/
  | refused
  /-- An index was outside its slice. -/
  | panicked
  deriving DecidableEq, Repr

namespace Checked

variable {α β : Type}

protected def bind : Checked α → (α → Checked β) → Checked β
  | done a, f => f a
  | refused, _ => refused
  | panicked, _ => panicked

instance : Monad Checked where
  pure := done
  bind := Checked.bind

/-- Goes on only if the condition holds. -/
def ensure (c : Bool) : Checked Unit := if c then done () else refused

/-- What a caller that goes on after `None` makes of it. -/
def attempt : Checked α → Checked (Option α)
  | done a => done (some a)
  | refused => done none
  | panicked => panicked

@[simp] theorem pure_eq (a : α) : (pure a : Checked α) = done a := rfl
@[simp] theorem done_bind (a : α) (f : α → Checked β) : (done a >>= f) = f a := rfl
@[simp] theorem refused_bind (f : α → Checked β) : (refused >>= f) = refused := rfl
@[simp] theorem panicked_bind (f : α → Checked β) : (panicked >>= f) = panicked := rfl
@[simp] theorem ensure_true : ensure true = done () := rfl
@[simp] theorem ensure_false : ensure false = refused := rfl

theorem bind_eq_done {x : Checked α} {f : α → Checked β} {b : β} :
    (x >>= f) = done b ↔ ∃ a, x = done a ∧ f a = done b := by
  cases x <;> simp

theorem ensure_eq_done {c : Bool} {u : Unit} : ensure c = done u ↔ c = true := by
  cases c <;> simp

theorem attempt_eq_done {x : Checked α} {o : Option α} (h : x.attempt = done o) :
    (∃ a, x = done a ∧ o = some a) ∨ x = refused ∧ o = none := by
  cases x with
  | done a => exact .inl ⟨a, rfl, (done.inj h).symm⟩
  | refused => exact .inr ⟨rfl, (done.inj h).symm⟩
  | panicked => cases h

/-- The function does not panic. -/
def Total (x : Checked α) : Prop := x ≠ panicked

theorem Total.done (a : α) : (Checked.done a).Total := nofun

theorem Total.refused : (Checked.refused : Checked α).Total := nofun

/-- What follows is run with the value that came out. -/
theorem Total.bind {x : Checked α} {f : α → Checked β} (hx : x.Total)
    (hf : ∀ a, x = .done a → (f a).Total) : (x >>= f).Total := by
  cases x with
  | done a => exact hf a rfl
  | refused => exact .refused
  | panicked => exact absurd rfl hx

/-- What follows a check is run only if the check held. -/
theorem Total.ensure_bind {c : Bool} {f : Unit → Checked β} (hf : c = true → (f ()).Total) :
    (Checked.ensure c >>= f).Total := by
  cases c with
  | false => exact .refused
  | true => exact hf rfl

theorem Total.attempt {x : Checked α} (hx : x.Total) : x.attempt.Total := by
  cases x with
  | done a => exact .done _
  | refused => exact .done _
  | panicked => exact absurd rfl hx

/-- The function does not give up. -/
def Certain (x : Checked α) : Prop := x ≠ refused

theorem Certain.done (a : α) : (Checked.done a).Certain := nofun

theorem Certain.bind {x : Checked α} {f : α → Checked β} (hx : x.Certain)
    (hf : ∀ a, (f a).Certain) : (x >>= f).Certain := by
  cases x with
  | done a => exact hf a
  | refused => exact absurd rfl hx
  | panicked => nofun

theorem Certain.attempt (x : Checked α) : x.attempt.Certain := by
  cases x <;> nofun

/-- A function that neither panics nor gives up returns a value. -/
theorem Total.value {x : Checked α} (hx : x.Total) (hx' : x.Certain) : ∃ a, x = .done a := by
  cases x with
  | done a => exact ⟨a, rfl⟩
  | refused => exact absurd rfl hx'
  | panicked => exact absurd rfl hx

end Checked

namespace SliceReads

open Checked

variable {α : Type} {bs : List α} {p : ℕ}
variable {i lo hi n : ℕ} {rest : List UInt8}

/-- `*bs.get(i)?` -/
def get (bs : List α) (i : ℕ) : Checked α :=
  match bs[i]? with
  | some b => done b
  | none => refused

/-- `bs[i]` -/
def index (bs : List α) (i : ℕ) : Checked α :=
  match bs[i]? with
  | some b => done b
  | none => panicked

/-- `bs.get(lo..hi)?` -/
def getRange (bs : List α) (lo hi : ℕ) : Checked (List α) :=
  if lo ≤ hi ∧ hi ≤ bs.length then done ((bs.drop lo).take (hi - lo)) else refused

/-- `bs.get(lo..)?` -/
def getFrom (bs : List α) (lo : ℕ) : Checked (List α) :=
  if lo ≤ bs.length then done (bs.drop lo) else refused

/-- `bs[lo..hi]` -/
def indexRange (bs : List α) (lo hi : ℕ) : Checked (List α) :=
  if lo ≤ hi ∧ hi ≤ bs.length then done ((bs.drop lo).take (hi - lo)) else panicked

/-- `bs[lo..]` -/
def indexFrom (bs : List α) (lo : ℕ) : Checked (List α) :=
  if lo ≤ bs.length then done (bs.drop lo) else panicked

/-- `bs[i] = b` -/
def store (bs : List α) (i : ℕ) (b : α) : Checked (List α) :=
  if i < bs.length then done (bs.set i b) else panicked

/-- `bs[lo..hi].copy_from_slice(src)`, which also panics if `src` has another length. -/
def copyRange (bs : List α) (lo hi : ℕ) (src : List α) : Checked (List α) :=
  if lo ≤ hi ∧ hi ≤ bs.length ∧ src.length = hi - lo then done (bs.take lo ++ src ++ bs.drop hi)
  else panicked

/-- `u16::from_be_bytes([*bs.get(i)?, *bs.get(i + 1)?])` -/
def getU16 (bs : List UInt8) (i : ℕ) : Checked ℕ := do
  let hi ← get bs i
  let lo ← get bs (i + 1)
  return beNat [hi, lo]

/-- `u16::from_be_bytes([bs[i], bs[i + 1]])` -/
def indexU16 (bs : List UInt8) (i : ℕ) : Checked ℕ := do
  let hi ← index bs i
  let lo ← index bs (i + 1)
  return beNat [hi, lo]

/-! ### A field is read where it stands -/

theorem getElem?_at {b : α} {rest : List α} (h : bs.drop p = b :: rest) : bs[p]? = some b := by
  have hp : (bs.drop p)[0]? = some b := by rw [h, List.getElem?_cons_zero]
  rwa [List.getElem?_drop, Nat.add_zero] at hp

theorem drop_after {field rest : List α} (h : bs.drop p = field ++ rest) :
    bs.drop (p + field.length) = rest := by
  rw [← List.drop_drop, h, List.drop_left]

theorem get_at {b : α} {rest : List α} (h : bs.drop p = b :: rest) : get bs p = done b := by
  rw [get, getElem?_at h]

theorem get_end (h : bs.drop p = []) : get bs p = refused := by
  rw [get, List.getElem?_eq_none (List.drop_eq_nil_iff.mp h)]

theorem index_at {b : α} {rest : List α} (h : bs.drop p = b :: rest) : index bs p = done b := by
  rw [index, getElem?_at h]

theorem getRange_at {field rest : List α} (h : bs.drop p = field ++ rest) (hp : p ≤ bs.length) :
    getRange bs p (p + field.length) = done field := by
  have hlen := congrArg List.length h
  rw [List.length_drop, List.length_append] at hlen
  have hin : p ≤ p + field.length ∧ p + field.length ≤ bs.length := by omega
  rw [getRange, if_pos hin, h, Nat.add_sub_cancel_left, List.take_left]

theorem getRange_eq_done {field : List α} (h : getRange bs lo hi = done field) :
    (lo ≤ hi ∧ hi ≤ bs.length) ∧ field = (bs.drop lo).take (hi - lo) := by
  rw [getRange] at h
  split at h
  · next hin => exact ⟨hin, (done.inj h).symm⟩
  · cases h

theorem indexRange_eq_done {field : List α} (h : indexRange bs lo hi = done field) :
    (lo ≤ hi ∧ hi ≤ bs.length) ∧ field = (bs.drop lo).take (hi - lo) := by
  rw [indexRange] at h
  split at h
  · next hin => exact ⟨hin, (done.inj h).symm⟩
  · cases h

theorem length_indexRange {field : List α} (h : indexRange bs lo hi = done field) :
    field.length = hi - lo := by
  obtain ⟨⟨hlo, hhi⟩, rfl⟩ := indexRange_eq_done h
  rw [List.length_take, List.length_drop]
  omega

theorem indexFrom_eq_done {rest : List α} (h : indexFrom bs lo = done rest) :
    lo ≤ bs.length ∧ rest = bs.drop lo := by
  rw [indexFrom] at h
  split at h
  · next hin => exact ⟨hin, (done.inj h).symm⟩
  · cases h

theorem getFrom_eq_done {rest : List α} (h : getFrom bs lo = done rest) :
    lo ≤ bs.length ∧ rest = bs.drop lo := by
  rw [getFrom] at h
  split at h
  · next hin => exact ⟨hin, (done.inj h).symm⟩
  · cases h

theorem drop_succ_at {b : α} {rest : List α} (h : bs.drop p = b :: rest) :
    bs.drop (p + 1) = rest := by
  have hsplit : bs.drop p = [b] ++ rest := h
  exact drop_after hsplit

theorem getU16_bytes {bs : List UInt8} {hi lo : UInt8} (h : bs.drop p = hi :: lo :: rest) :
    getU16 bs p = done (beNat [hi, lo]) := by
  rw [getU16, get_at h, done_bind, get_at (drop_succ_at h), done_bind, pure_eq]

theorem indexU16_bytes {bs : List UInt8} {hi lo : UInt8} (h : bs.drop p = hi :: lo :: rest) :
    indexU16 bs p = done (beNat [hi, lo]) := by
  rw [indexU16, index_at h, done_bind, index_at (drop_succ_at h), done_bind, pure_eq]

theorem beNat_two (hn : n < 65536) : beNat [UInt8.ofNat (n / 256), UInt8.ofNat n] = n := by
  have hval : beNat (beBytes 2 n) = n := beNat_beBytes (by simpa using hn)
  exact hval

theorem getU16_at {bs : List UInt8} (h : bs.drop p = beBytes 2 n ++ rest) (hn : n < 65536) :
    getU16 bs p = done n := by
  rw [getU16_bytes h, beNat_two hn]

theorem indexU16_at {bs : List UInt8} (h : bs.drop p = beBytes 2 n ++ rest) (hn : n < 65536) :
    indexU16 bs p = done n := by
  rw [indexU16_bytes h, beNat_two hn]

/-! ### What was read stands there -/

theorem drop_of_getElem? {b : α} (h : bs[p]? = some b) : bs.drop p = b :: bs.drop (p + 1) := by
  obtain ⟨hp, rfl⟩ := List.getElem?_eq_some_iff.mp h
  exact List.drop_eq_getElem_cons hp

theorem get_eq_done {b : α} (h : get bs p = done b) : bs.drop p = b :: bs.drop (p + 1) := by
  rw [get] at h
  split at h
  · next heq => exact drop_of_getElem? (heq.trans (congrArg some (done.inj h)))
  · cases h

theorem index_eq_done {b : α} (h : index bs p = done b) : bs.drop p = b :: bs.drop (p + 1) := by
  rw [index] at h
  split at h
  · next heq => exact drop_of_getElem? (heq.trans (congrArg some (done.inj h)))
  · cases h

theorem getU16_eq_done {bs : List UInt8} (h : getU16 bs p = done n) :
    n < 65536 ∧ bs.drop p = beBytes 2 n ++ bs.drop (p + 2) := by
  simp only [getU16, bind_eq_done, pure_eq, done.injEq] at h
  obtain ⟨hi, hhi, lo, hlo, rfl⟩ := h
  rw [get_eq_done hhi, get_eq_done hlo, show beBytes 2 _ = _ from beBytes_beNat [hi, lo]]
  exact ⟨by simpa using beNat_lt [hi, lo], rfl⟩

theorem indexU16_eq_done {bs : List UInt8} (h : indexU16 bs p = done n) :
    n < 65536 ∧ bs.drop p = beBytes 2 n ++ bs.drop (p + 2) := by
  simp only [indexU16, bind_eq_done, pure_eq, done.injEq] at h
  obtain ⟨hi, hhi, lo, hlo, rfl⟩ := h
  rw [index_eq_done hhi, index_eq_done hlo, show beBytes 2 _ = _ from beBytes_beNat [hi, lo]]
  exact ⟨by simpa using beNat_lt [hi, lo], rfl⟩

/-- A field of a length that lies in the buffer. -/
theorem drop_split (h : p + n ≤ bs.length) :
    ∃ field, field.length = n ∧ bs.drop p = field ++ bs.drop (p + n) := by
  refine ⟨(bs.drop p).take n, ?_, ?_⟩
  · rw [List.length_take, List.length_drop]
    omega
  · rw [← List.drop_drop, List.take_append_drop]

/-! ### Reads that do not panic -/

theorem get_total (bs : List α) (i : ℕ) : (get bs i).Total := by
  rw [get]
  split
  · exact .done _
  · exact .refused

theorem index_total (h : i < bs.length) : (index bs i).Total := by
  rw [index, List.getElem?_eq_getElem h]
  exact .done _

theorem getRange_total (bs : List α) (lo hi : ℕ) : (getRange bs lo hi).Total := by
  rw [getRange]
  split
  · exact .done _
  · exact .refused

theorem getFrom_total (bs : List α) (lo : ℕ) : (getFrom bs lo).Total := by
  rw [getFrom]
  split
  · exact .done _
  · exact .refused

theorem indexRange_total (hlo : lo ≤ hi) (hhi : hi ≤ bs.length) : (indexRange bs lo hi).Total := by
  rw [indexRange, if_pos ⟨hlo, hhi⟩]
  exact .done _

theorem indexFrom_total (h : lo ≤ bs.length) : (indexFrom bs lo).Total := by
  rw [indexFrom, if_pos h]
  exact .done _

theorem getU16_total (bs : List UInt8) (i : ℕ) : (getU16 bs i).Total :=
  (get_total bs i).bind fun _ _ => (get_total bs (i + 1)).bind fun _ _ => .done _

theorem indexU16_total {bs : List UInt8} (h : i + 1 < bs.length) : (indexU16 bs i).Total :=
  (index_total (by omega)).bind fun _ _ => (index_total h).bind fun _ _ => .done _

/-! ### Stores into a slice -/

/-- The function returns a slice of length `n`. -/
def Fills (n : ℕ) (x : Checked (List α)) : Prop := ∃ bs, x = done bs ∧ bs.length = n

theorem store_fills {b : α} (h : bs.length = n) (hi : i < n) : Fills n (store bs i b) :=
  ⟨bs.set i b, if_pos (h ▸ hi), by rw [List.length_set, h]⟩

theorem copyRange_fills {src : List α} (h : bs.length = n) (hlo : lo ≤ hi) (hhi : hi ≤ n)
    (hsrc : src.length = hi - lo) : Fills n (copyRange bs lo hi src) := by
  refine ⟨_, if_pos ⟨hlo, h ▸ hhi, hsrc⟩, ?_⟩
  simp only [List.length_append, List.length_take, List.length_drop]
  omega

theorem Fills.bind {x : Checked (List α)} {f : List α → Checked (List α)} (hx : Fills n x)
    (hf : ∀ bs, bs.length = n → Fills n (f bs)) : Fills n (x >>= f) := by
  obtain ⟨bs, rfl, hbs⟩ := hx
  exact hf bs hbs

/-- What follows a store is run with a slice of the same length. -/
theorem Fills.total_bind {β : Type} {x : Checked (List α)} {f : List α → Checked β}
    (hx : Fills n x) (hf : ∀ bs, bs.length = n → (f bs).Total) : (x >>= f).Total := by
  obtain ⟨bs, rfl, hbs⟩ := hx
  exact hf bs hbs

/-! ### Reads that do not give up -/

theorem index_certain (bs : List α) (i : ℕ) : (index bs i).Certain := by
  rw [index]
  split
  · exact .done _
  · nofun

theorem indexFrom_certain (bs : List α) (lo : ℕ) : (indexFrom bs lo).Certain := by
  rw [indexFrom]
  split
  · exact .done _
  · nofun

theorem indexU16_certain (bs : List UInt8) (i : ℕ) : (indexU16 bs i).Certain :=
  (index_certain bs i).bind fun _ => (index_certain bs (i + 1)).bind fun _ => .done _

end SliceReads
