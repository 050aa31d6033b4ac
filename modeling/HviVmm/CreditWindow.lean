/-
Credit windows over wrapping counters.

A sender counts what it sent and a receiver what it freed.  The receiver reports
its count now and then, and the sender keeps what is outstanding within the room
the receiver has.  Both counters are 32 bits wide and wrap, while the counts they
stand for do not.

* `Window` — what was sent, and the last report, as true counts;
* `Window.send` — the check a sender makes on its counters keeps the window;
* `Window.report` — so does a later report, as long as it is not ahead of what was
  sent.
-/
import Mathlib.Algebra.Group.Nat.Defs
import Mathlib.Order.Basic

namespace CreditWindow

/-- A difference of counters is the difference of the counts, when that fits. -/
theorem toNat_ofNat_sub {a b : ℕ} (hle : b ≤ a) (hlt : a < b + 2 ^ 32) :
    (UInt32.ofNat a - UInt32.ofNat b).toNat = a - b := by
  rw [UInt32.toNat_sub, UInt32.toNat_ofNat', UInt32.toNat_ofNat']
  omega

/-- `freed` of the `sent` units are reported free, and the rest fits in the room. -/
structure Window (room sent freed : ℕ) : Prop where
  le : freed ≤ sent
  fits : sent ≤ freed + room

namespace Window

variable {room sent freed : ℕ}

theorem start (room : ℕ) : Window room 0 0 := ⟨Nat.le_refl 0, Nat.zero_le _⟩

/-- What the counters show as outstanding is outstanding. -/
theorem outstanding (w : Window room sent freed) (hroom : room < 2 ^ 32) :
    (UInt32.ofNat sent - UInt32.ofNat freed).toNat = sent - freed :=
  toNat_ofNat_sub w.le (by have := w.fits; omega)

theorem send (w : Window room sent freed) (hroom : room < 2 ^ 32) {n : ℕ}
    (h : (UInt32.ofNat sent - UInt32.ofNat freed).toNat + n ≤ room) :
    Window room (sent + n) freed := by
  rw [w.outstanding hroom] at h
  have hle := w.le
  exact ⟨by omega, by omega⟩

theorem report (w : Window room sent freed) {freed' : ℕ} (hle : freed ≤ freed')
    (hsent : freed' ≤ sent) : Window room sent freed' :=
  ⟨hsent, by have := w.fits; omega⟩

end Window

end CreditWindow
