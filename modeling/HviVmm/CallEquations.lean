/-
How procedures compute.

A procedure whose first step makes no call is the rest of it: `pure_bind_apply` and
`get_bind_apply` execute a procedure by rewriting.

* `Prog.Reaches` — some fair answers bring a program to a call of a kind.
-/
import HviVmm.CallPrograms

namespace CallPrograms

variable {σ ε Op : Type} {Ans : Op → Type} {α β γ : Type}
variable {fair : Call Op Ans → Prop}

/-- Some fair answers bring the program to a call of which `P` is true, or to an end as `Q` says. -/
def Prog.Reaches (fair P : Call Op Ans → Prop) (Q : α → Prop) : Prog Op Ans α → Prop
  | .ret a => Q a
  | .call op k => ∃ x, fair ⟨op, x⟩ ∧ (P ⟨op, x⟩ ∨ (k x).Reaches fair P Q)

theorem Prog.Reaches.bind {P : Call Op Ans → Prop} {T : α → Prop} {Q : β → Prop}
    {m : Prog Op Ans α} {f : α → Prog Op Ans β} (h : m.Reaches fair P T)
    (hf : ∀ a, T a → (f a).Reaches fair P Q) : (m.bind f).Reaches fair P Q := by
  induction m with
  | ret a => exact hf a h
  | call op k ih =>
    obtain ⟨x, hx, hP | hk⟩ := h
    · exact ⟨x, hx, .inl hP⟩
    · exact ⟨x, hx, .inr (ih x hk)⟩

theorem Prog.Reaches.imp {P : Call Op Ans → Prop} {Q Q' : α → Prop} {m : Prog Op Ans α}
    (h : m.Reaches fair P Q) (hQ : ∀ a, Q a → Q' a) : m.Reaches fair P Q' := by
  induction m with
  | ret a => exact hQ a h
  | call op k ih => exact Exists.imp (fun x hx => ⟨hx.1, hx.2.imp_right (ih x)⟩) h

/-- A call that is reached in the first part of a sequence. -/
theorem Prog.Reaches.first {P : Call Op Ans → Prop} {Q : β → Prop} {m : Prog Op Ans α}
    (h : m.Reaches fair P fun _ => False) (f : α → Prog Op Ans β) :
    (m.bind f).Reaches fair P Q :=
  h.bind fun _ ha => ha.elim

namespace Proc

variable {s : σ} {f : α → Proc σ ε Op Ans β}

theorem pure_bind_apply (a : α) : ((pure a : Proc σ ε Op Ans α) >>= f) s = f a s := rfl

theorem modify_bind_apply {g : σ → σ} {f : Unit → Proc σ ε Op Ans β} :
    (Proc.modify g >>= f) s = f () (g s) := rfl

theorem get_bind_apply {f : σ → Proc σ ε Op Ans β} :
    ((get : Proc σ ε Op Ans σ) >>= f) s = f s s := rfl

theorem orThrow_some (a : α) (e : ε) : (orThrow (some a) e : Proc σ ε Op Ans α) = pure a := rfl

theorem lift_ok (a : α) : (lift (.ok a) : Proc σ ε Op Ans α) = pure a := rfl

/-- Some fair answers bring the procedure to a call of which `P` is true, or it returns a value
and leaves a state as `T` says. -/
def Comes (fair P : Call Op Ans → Prop) (m : Proc σ ε Op Ans α) (s : σ) (T : α → σ → Prop) : Prop :=
  (m s).Reaches fair P fun r => ∃ a, r.1 = .ok a ∧ T a r.2

theorem Comes.bind {P : Call Op Ans → Prop} {m : Proc σ ε Op Ans α} {T : α → σ → Prop}
    {Q : Except ε β × σ → Prop} (h : Comes fair P m s T)
    (hf : ∀ a s', T a s' → (f a s').Reaches fair P Q) : ((m >>= f) s).Reaches fair P Q := by
  refine Prog.Reaches.bind h ?_
  rintro ⟨r, s'⟩ ⟨a, rfl, ha⟩
  exact hf a s' ha

theorem Comes.attempt {P : Call Op Ans → Prop} {m : Proc σ ε Op Ans α} {T : α → σ → Prop}
    (h : Comes fair P m s T) : Comes fair P m.attempt s fun r s' => ∃ a, r = .ok a ∧ T a s' :=
  Prog.Reaches.bind h fun _ ⟨a, hr, ha⟩ => ⟨_, rfl, a, hr, ha⟩

end Proc

end CallPrograms
