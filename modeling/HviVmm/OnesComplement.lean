/-
The internet checksum.

Data is summed as big-endian 16-bit words, the last one padded with a zero byte, and
carries out of the low 16 bits are added back in until there are none.  The checksum is
the complement of that.

* `foldCarry`, `wordSum` — the sum and its carries;
* `wordSum_le` — how large a sum can get.
-/
import HviVmm.ByteCodec

namespace OnesComplement

open ByteCodec

/-- Adds carries out of the low 16 bits back in until there are none. -/
def foldCarry (sum : ℕ) : ℕ :=
  if sum < 65536 then sum else foldCarry (sum % 65536 + sum / 65536)

/-- The sum of the 16-bit words. -/
def wordSum : List UInt8 → ℕ
  | a :: b :: rest => beNat [a, b] + wordSum rest
  | [a] => a.toNat * 256
  | [] => 0

theorem beNat_pair (a b : UInt8) : beNat [a, b] = 256 * a.toNat + b.toNat := by
  simp [beNat, leNat]

theorem beNat_pair_lt (a b : UInt8) : beNat [a, b] < 65536 := by
  rw [beNat_pair]
  have ha := a.toNat_lt
  have hb := b.toNat_lt
  omega

theorem wordSum_le (data : List UInt8) : wordSum data ≤ 32768 * (data.length + 1) := by
  induction data using wordSum.induct with
  | case1 a b rest ih =>
    have hword := beNat_pair_lt a b
    rw [wordSum, List.length_cons, List.length_cons]
    omega
  | case2 a =>
    have ha := a.toNat_lt
    rw [wordSum, List.length_singleton]
    omega
  | case3 => simp [wordSum]

end OnesComplement
