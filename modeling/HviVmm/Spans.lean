/-
Half-open ranges of addresses.

* `disjoint_of_ordered` — ranges listed in order of their addresses, each ending before the next
  starts, are pairwise disjoint.
-/
import Mathlib.Data.List.Pairwise
import Mathlib.Data.Nat.Notation

/-- The addresses from `lo` up to `hi`. -/
structure Span where
  lo : ℕ
  hi : ℕ
  deriving DecidableEq

namespace Span

variable {a b : Span} {x : ℕ}

def Has (a : Span) (x : ℕ) : Prop := a.lo ≤ x ∧ x < a.hi

instance : Decidable (a.Has x) := by unfold Has; infer_instance

/-- No address is in both. -/
def Disjoint (a b : Span) : Prop := ∀ x, a.Has x → ¬ b.Has x

/-- One lies inside the other. -/
def Within (a b : Span) : Prop := b.lo ≤ a.lo ∧ a.hi ≤ b.hi

theorem disjoint_of_le (h : a.hi ≤ b.lo) : a.Disjoint b := by
  intro x ha hb
  have hlt := ha.2
  have hle := hb.1
  omega

theorem disjoint_of_ordered {spans : List Span} (h : spans.Pairwise fun a b => a.hi ≤ b.lo) :
    spans.Pairwise Disjoint :=
  h.imp disjoint_of_le

end Span
