/-
Fixed-width byte encodings of natural numbers.

`leBytes w n` writes the low `w` bytes of `n`, least significant first, and
`leNat` reads such a list back; `beBytes` and `beNat` are the big-endian pair.
The facts every user of the codec needs are

* `leNat_leBytes` — reading back a number that fits gives the number;
* `leBytes_leNat` — writing what was read gives the bytes;
* `leNat_lt` — a list of `w` bytes reads as a number below `256 ^ w`.
-/
import Mathlib.Tactic.Common
import Mathlib.Tactic.Ring

namespace ByteCodec

/-- The low `w` bytes of `n`, least significant first. -/
def leBytes : ℕ → ℕ → List UInt8
  | 0, _ => []
  | w + 1, n => UInt8.ofNat n :: leBytes w (n / 256)

/-- The number a little-endian byte list stands for. -/
def leNat : List UInt8 → ℕ
  | [] => 0
  | b :: rest => 256 * leNat rest + b.toNat

@[simp] theorem length_leBytes (w n : ℕ) : (leBytes w n).length = w := by
  induction w generalizing n with
  | zero => rfl
  | succ w ih => simp [leBytes, ih]

theorem leNat_lt (bs : List UInt8) : leNat bs < 256 ^ bs.length := by
  induction bs with
  | nil => simp [leNat]
  | cons b rest ih =>
    have hb : b.toNat < 256 := b.toNat_lt
    rw [leNat, List.length_cons, pow_succ]
    omega

/-- **Round trip**: a number that fits in `w` bytes is read back unchanged. -/
theorem leNat_leBytes {w n : ℕ} (h : n < 256 ^ w) : leNat (leBytes w n) = n := by
  induction w generalizing n with
  | zero =>
    rw [pow_zero] at h
    simp only [leBytes, leNat]
    omega
  | succ w ih =>
    rw [pow_succ] at h
    have hlow : (UInt8.ofNat n).toNat = n % 256 := by simp
    rw [leBytes, leNat, ih (by omega), hlow]
    omega

/-- The bytes of the number a list stands for are the list. -/
theorem leBytes_leNat (bs : List UInt8) : leBytes bs.length (leNat bs) = bs := by
  induction bs with
  | nil => rfl
  | cons b rest ih =>
    have hb : b.toNat < 256 := b.toNat_lt
    have hlow : UInt8.ofNat (256 * leNat rest + b.toNat) = b := by
      rw [← UInt8.toNat_inj, UInt8.toNat_ofNat']
      omega
    have hhigh : (256 * leNat rest + b.toNat) / 256 = leNat rest := by omega
    rw [List.length_cons, leBytes, leNat, hlow, hhigh, ih]

/-- The low `w` bytes of `n`, most significant first. -/
def beBytes (w n : ℕ) : List UInt8 := (leBytes w n).reverse

/-- The number a big-endian byte list stands for. -/
def beNat (bs : List UInt8) : ℕ := leNat bs.reverse

@[simp] theorem length_beBytes (w n : ℕ) : (beBytes w n).length = w := by
  simp [beBytes]

theorem beNat_beBytes {w n : ℕ} (h : n < 256 ^ w) : beNat (beBytes w n) = n := by
  rw [beNat, beBytes, List.reverse_reverse, leNat_leBytes h]

theorem beNat_lt (bs : List UInt8) : beNat bs < 256 ^ bs.length := by
  have h := leNat_lt bs.reverse
  rwa [List.length_reverse] at h

theorem beBytes_beNat (bs : List UInt8) : beBytes bs.length (beNat bs) = bs := by
  rw [beBytes, beNat, ← List.length_reverse, leBytes_leNat, List.reverse_reverse]

theorem beBytes_of_beNat {bs : List UInt8} {w n : ℕ} (hw : bs.length = w) (hn : n = beNat bs) :
    beBytes w n = bs := by
  rw [← hw, hn]
  exact beBytes_beNat bs

end ByteCodec
