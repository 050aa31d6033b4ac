/-
Computations that may fail, one after the other.

* `ok_of_bind`, `bind_eq_ok` — a chain that succeeds went through its first part;
* `ok_of_mapError` — renaming errors makes no success.
-/

namespace ResultChain

variable {ε ε' α β : Type} {x : Except ε α}

theorem ok_of_bind {f : α → Except ε β} {b : β} (h : (x >>= f) = .ok b) :
    ∃ a, x = .ok a ∧ f a = .ok b := by
  cases x with
  | error e => cases h
  | ok a => exact ⟨a, rfl, h⟩

theorem bind_eq_ok {f : α → Except ε β} {b : β} :
    (x >>= f) = .ok b ↔ ∃ a, x = .ok a ∧ f a = .ok b := by
  constructor
  · exact ok_of_bind
  · rintro ⟨a, rfl, h⟩
    exact h

theorem ok_of_mapError {f : ε → ε'} {a : α} (h : x.mapError f = .ok a) : x = .ok a := by
  cases x with
  | error e => cases h
  | ok b => exact congrArg Except.ok (Except.ok.inj h)

end ResultChain
