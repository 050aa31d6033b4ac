/-
Programs that call their environment.

A `Prog` either returns or makes one call and goes on with the answer, so it is a
finite tree that branches on what the environment may say.  `Runs m tr a` says
that `m`, given the answers recorded in the trace `tr`, makes exactly the calls of
`tr`, in that order, and returns `a`.  The environment is not modelled here: a
property of every run is a property for every environment.

A `Proc` is a program over a state that may fail; what it did to the state before
it failed stays done.

* `runs_bind` — a run of a sequence is a run of the first part followed by a run of
  the second;
* `exists_run` — whatever the environment answers, a program comes to an end;
* `Prog.Ensures` — every call is permitted and the result is as wanted, as long as the
  answers are fair; a property of the tree, hence of every prefix of a run too;
* `Proc.Keeps` — the rule of invariants: under what is assumed of the answers,
  every call a procedure makes is permitted, the state stays good and moves only as
  permitted, and the value returned satisfies a postcondition.  `Keeps.bind`,
  `Keeps.ask`, `Keeps.modify`, `Keeps.attempt` and `Keeps.forEach` are its rules.
-/
import Mathlib.Logic.Basic

namespace CallPrograms

/-- A program that makes calls `op : Op` and is answered with an `Ans op`. -/
inductive Prog (Op : Type) (Ans : Op → Type) (α : Type) : Type
  | ret (a : α)
  | call (op : Op) (k : Ans op → Prog Op Ans α)

/-- One call and its answer. -/
structure Call (Op : Type) (Ans : Op → Type) where
  op : Op
  ans : Ans op

section

variable {Op : Type} {Ans : Op → Type} {α β : Type}
variable {tr : List (Call Op Ans)}

namespace Prog

def bind : Prog Op Ans α → (α → Prog Op Ans β) → Prog Op Ans β
  | ret a, f => f a
  | call op k, f => call op fun x => (k x).bind f

end Prog

/-- The runs of a program. -/
inductive Runs : Prog Op Ans α → List (Call Op Ans) → α → Prop
  | ret (a : α) : Runs (.ret a) [] a
  | call {op : Op} {k : Ans op → Prog Op Ans α} {x : Ans op} {tr : List (Call Op Ans)} {a : α}
      (h : Runs (k x) tr a) : Runs (.call op k) (⟨op, x⟩ :: tr) a

@[simp] theorem runs_ret {a b : α} : Runs (.ret a : Prog Op Ans α) tr b ↔ tr = [] ∧ b = a := by
  constructor
  · rintro ⟨⟩
    exact ⟨rfl, rfl⟩
  · rintro ⟨rfl, rfl⟩
    exact .ret b

@[simp] theorem runs_call {op : Op} {k : Ans op → Prog Op Ans α} {a : α} :
    Runs (.call op k) tr a ↔ ∃ x tr', tr = ⟨op, x⟩ :: tr' ∧ Runs (k x) tr' a := by
  constructor
  · rintro (_ | ⟨h⟩)
    exact ⟨_, _, rfl, h⟩
  · rintro ⟨x, tr', rfl, h⟩
    exact .call h

/-- **Runs of a sequence.** -/
theorem runs_bind {m : Prog Op Ans α} {f : α → Prog Op Ans β} {b : β} :
    Runs (m.bind f) tr b ↔ ∃ tr₁ tr₂ a, tr = tr₁ ++ tr₂ ∧ Runs m tr₁ a ∧ Runs (f a) tr₂ b := by
  induction m generalizing tr with
  | ret a =>
    constructor
    · intro h
      exact ⟨[], tr, a, rfl, .ret a, h⟩
    · rintro ⟨tr₁, tr₂, a', rfl, h₁, h₂⟩
      obtain ⟨rfl, rfl⟩ := runs_ret.mp h₁
      exact h₂
  | call op k ih =>
    constructor
    · intro h
      obtain ⟨x, tr', rfl, hx⟩ := runs_call.mp h
      obtain ⟨tr₁, tr₂, a, rfl, h₁, h₂⟩ := (ih x).mp hx
      exact ⟨_, tr₂, a, rfl, .call h₁, h₂⟩
    · rintro ⟨tr₁, tr₂, a, rfl, h₁, h₂⟩
      obtain ⟨x, tr', rfl, hx⟩ := runs_call.mp h₁
      exact .call ((ih x).mpr ⟨tr', tr₂, a, rfl, hx, h₂⟩)

/-- **A program comes to an end**, whatever it is answered.  What the environment answers may
depend on all the calls before. -/
theorem exists_run (m : Prog Op Ans α) (answer : List (Call Op Ans) → (op : Op) → Ans op) :
    ∃ tr a, Runs m tr a ∧ ∀ before c after, tr = before ++ c :: after →
      c.ans = answer before c.op := by
  induction m generalizing answer with
  | ret a => exact ⟨[], a, .ret a, by simp⟩
  | call op k ih =>
    obtain ⟨tr, a, h, hans⟩ := ih (answer [] op) fun before => answer (⟨op, answer [] op⟩ :: before)
    refine ⟨⟨op, answer [] op⟩ :: tr, a, .call h, ?_⟩
    intro before c after heq
    cases before with
    | nil =>
      obtain ⟨rfl, -⟩ := List.cons.inj heq
      rfl
    | cons c' before =>
      obtain ⟨rfl, htr⟩ := List.cons.inj heq
      exact hans before c after htr

namespace Prog

/-- Under fair answers every call is permitted and what is returned satisfies `Q`.  It is a
property of the tree, so it also speaks of a program that has not come to its end. -/
def Ensures (fair permits : Call Op Ans → Prop) (Q : α → Prop) : Prog Op Ans α → Prop
  | ret a => Q a
  | call op k => ∀ x, fair ⟨op, x⟩ → permits ⟨op, x⟩ ∧ (k x).Ensures fair permits Q

variable {fair permits fair' permits' : Call Op Ans → Prop} {Q Q' : α → Prop} {m : Prog Op Ans α}

theorem Ensures.mono (h : m.Ensures fair permits Q) (hfair : ∀ c, fair' c → fair c)
    (hpermits : ∀ c, permits c → permits' c) (hQ : ∀ a, Q a → Q' a) :
    m.Ensures fair' permits' Q' := by
  induction m with
  | ret a => exact hQ a h
  | call op k ih =>
    intro x hx
    obtain ⟨hp, hk⟩ := h x (hfair _ hx)
    exact ⟨hpermits _ hp, ih x hk⟩

theorem Ensures.imp (h : m.Ensures fair permits Q) (hQ : ∀ a, Q a → Q' a) :
    m.Ensures fair permits Q' :=
  h.mono (fun _ hc => hc) (fun _ hc => hc) hQ

theorem ensures_bind {f : α → Prog Op Ans β} {P : β → Prop}
    (h : m.Ensures fair permits fun a => (f a).Ensures fair permits P) :
    (m.bind f).Ensures fair permits P := by
  induction m with
  | ret a => exact h
  | call op k ih =>
    intro x hx
    obtain ⟨hp, hk⟩ := h x hx
    exact ⟨hp, ih x hk⟩

/-- The program makes the call `op` first and after it ensures `Q`. -/
def Starts (op : Op) (fair permits : Call Op Ans → Prop) (Q : α → Prop) : Prog Op Ans α → Prop
  | ret _ => False
  | call op' k => op' = op ∧ ∀ x, (k x).Ensures fair permits Q

theorem Starts.bind {op : Op} {f : α → Prog Op Ans β} {P : β → Prop}
    (h : m.Starts op fair permits Q) (hf : ∀ a, Q a → (f a).Ensures fair permits P) :
    (m.bind f).Starts op fair permits P := by
  cases m with
  | ret a => exact h.elim
  | call op' k =>
    obtain ⟨rfl, hk⟩ := h
    refine ⟨rfl, fun x => ensures_bind ((hk x).imp hf)⟩

/-- A count or a flag `g` is kept of the calls; what is returned satisfies `Q` with what it has
come to. -/
def Tracks {γ : Type} (fair : Call Op Ans → Prop) (step : γ → Call Op Ans → γ) (Q : γ → α → Prop) :
    γ → Prog Op Ans α → Prop
  | g, ret a => Q g a
  | g, call op k => ∀ x, fair ⟨op, x⟩ → (k x).Tracks fair step Q (step g ⟨op, x⟩)

section

variable {γ : Type} {step : γ → Call Op Ans → γ} {g : γ} {T : γ → α → Prop}

theorem Ensures.tracks (h : m.Ensures fair permits Q) (hstep : ∀ c, permits c → step g c = g)
    (hQ : ∀ a, Q a → T g a) : m.Tracks fair step T g := by
  induction m with
  | ret a => exact hQ a h
  | call op k ih =>
    intro x hx
    obtain ⟨hpermits, hk⟩ := h x hx
    rw [hstep _ hpermits]
    exact ih x hk

/-- A program whose end says enough, whatever `g` has come to. -/
theorem Ensures.tracks_any (h : m.Ensures fair permits Q) (hQ : ∀ g a, Q a → T g a) (g : γ) :
    m.Tracks fair step T g := by
  induction m generalizing g with
  | ret a => exact hQ g a h
  | call op k ih => exact fun x hx => ih x (h x hx).2 _

theorem tracks_bind {f : α → Prog Op Ans β} {U : γ → β → Prop} (h : m.Tracks fair step T g)
    (hf : ∀ g a, T g a → (f a).Tracks fair step U g) : (m.bind f).Tracks fair step U g := by
  induction m generalizing g with
  | ret a => exact hf g a h
  | call op k ih => exact fun x hx => ih x (h x hx)

end

end Prog

end

/-- A program over a state `σ` that may fail with an `ε`. -/
def Proc (σ ε : Type) (Op : Type) (Ans : Op → Type) (α : Type) : Type :=
  σ → Prog Op Ans (Except ε α × σ)

namespace Proc

variable {σ ε Op : Type} {Ans : Op → Type} {α β γ : Type}

/-- Goes on with the value, or stops with the error. -/
def next (f : α → Proc σ ε Op Ans β) : Except ε α × σ → Prog Op Ans (Except ε β × σ)
  | (.ok a, s) => f a s
  | (.error e, s) => .ret (.error e, s)

instance : Monad (Proc σ ε Op Ans) where
  pure a := fun s => .ret (.ok a, s)
  bind m f := fun s => (m s).bind (next f)

def throw (e : ε) : Proc σ ε Op Ans α := fun s => .ret (.error e, s)

def get : Proc σ ε Op Ans σ := fun s => .ret (.ok s, s)

def modify (f : σ → σ) : Proc σ ε Op Ans Unit := fun s => .ret (.ok (), f s)

/-- Changes the state and returns a value. -/
def modifyGet (f : σ → σ × α) : Proc σ ε Op Ans α := fun s => .ret (.ok (f s).2, (f s).1)

/-- Makes one call. -/
def ask (op : Op) : Proc σ ε Op Ans (Ans op) := fun s => .call op fun x => .ret (.ok x, s)

/-- Runs a procedure and returns how it ended. -/
def attempt (m : Proc σ ε Op Ans α) : Proc σ ε Op Ans (Except ε α) :=
  fun s => (m s).bind fun r => .ret (.ok r.1, r.2)

/-- A computation that makes no call and does not touch the state. -/
def lift : Except ε α → Proc σ ε Op Ans α
  | .ok a => pure a
  | .error e => throw e

/-- `ok_or`. -/
def orThrow (o : Option α) (e : ε) : Proc σ ε Op Ans α :=
  match o with
  | some a => pure a
  | none => throw e

/-- Runs `f` on every element in turn. -/
def forEach (f : α → Proc σ ε Op Ans Unit) : List α → Proc σ ε Op Ans Unit
  | [] => pure ()
  | a :: as => do
    f a
    forEach f as

/-- Runs a procedure on a part of the state. -/
def zoom {τ : Type} (part : σ → τ) (put : τ → σ → σ) (m : Proc τ ε Op Ans α) : Proc σ ε Op Ans α :=
  fun s => (m (part s)).bind fun r => .ret (r.1, put r.2 s)

/-! ### Runs of procedures -/

variable {s s' : σ} {tr : List (Call Op Ans)}

@[simp] theorem runs_pure {a : α} {r : Except ε α} :
    Runs ((pure a : Proc σ ε Op Ans α) s) tr (r, s') ↔ tr = [] ∧ r = .ok a ∧ s' = s := by
  show Runs (.ret (.ok a, s)) tr (r, s') ↔ _
  rw [runs_ret, Prod.mk.injEq]

@[simp] theorem runs_throw {e : ε} {r : Except ε α} :
    Runs ((throw e : Proc σ ε Op Ans α) s) tr (r, s') ↔ tr = [] ∧ r = .error e ∧ s' = s := by
  show Runs (.ret (.error e, s)) tr (r, s') ↔ _
  rw [runs_ret, Prod.mk.injEq]

@[simp] theorem runs_get {r : Except ε σ} :
    Runs ((get : Proc σ ε Op Ans σ) s) tr (r, s') ↔ tr = [] ∧ r = .ok s ∧ s' = s := by
  show Runs (.ret (.ok s, s)) tr (r, s') ↔ _
  rw [runs_ret, Prod.mk.injEq]

@[simp] theorem runs_ask {op : Op} {r : Except ε (Ans op)} :
    Runs ((ask op : Proc σ ε Op Ans (Ans op)) s) tr (r, s') ↔
      ∃ x, tr = [⟨op, x⟩] ∧ r = .ok x ∧ s' = s := by
  constructor
  · intro h
    obtain ⟨x, tr', rfl, hx⟩ := runs_call.mp h
    obtain ⟨rfl, hr⟩ := runs_ret.mp hx
    cases hr
    exact ⟨x, rfl, rfl, rfl⟩
  · rintro ⟨x, rfl, rfl, rfl⟩
    exact .call (.ret _)

/-- A run of a sequence fails in the first part or goes through it. -/
theorem runs_bind {m : Proc σ ε Op Ans α} {f : α → Proc σ ε Op Ans β} {r : Except ε β} :
    Runs ((m >>= f) s) tr (r, s') ↔
      (∃ e, r = .error e ∧ Runs (m s) tr (.error e, s')) ∨
        ∃ tr₁ tr₂ a s₁, tr = tr₁ ++ tr₂ ∧ Runs (m s) tr₁ (.ok a, s₁) ∧
        Runs (f a s₁) tr₂ (r, s') := by
  show Runs ((m s).bind (next f)) tr (r, s') ↔ _
  rw [CallPrograms.runs_bind]
  constructor
  · rintro ⟨tr₁, tr₂, ⟨r₁, s₁⟩, rfl, h₁, h₂⟩
    cases r₁ with
    | ok a => exact .inr ⟨tr₁, tr₂, a, s₁, rfl, h₁, h₂⟩
    | error e =>
      obtain ⟨rfl, hr⟩ := runs_ret.mp h₂
      cases hr
      exact .inl ⟨e, rfl, by simpa using h₁⟩
  · rintro (⟨e, rfl, h⟩ | ⟨tr₁, tr₂, a, s₁, rfl, h₁, h₂⟩)
    · exact ⟨tr, [], (.error e, s'), by simp, h, .ret _⟩
    · exact ⟨tr₁, tr₂, (.ok a, s₁), rfl, h₁, h₂⟩

theorem runs_attempt {m : Proc σ ε Op Ans α} {r : Except ε (Except ε α)} :
    Runs (m.attempt s) tr (r, s') ↔ ∃ r', r = .ok r' ∧ Runs (m s) tr (r', s') := by
  show Runs ((m s).bind _) tr (r, s') ↔ _
  rw [CallPrograms.runs_bind]
  constructor
  · rintro ⟨tr₁, tr₂, ⟨r', s₁⟩, rfl, h₁, h₂⟩
    obtain ⟨rfl, hr⟩ := runs_ret.mp h₂
    cases hr
    exact ⟨r', rfl, by simpa using h₁⟩
  · rintro ⟨r', rfl, h⟩
    exact ⟨tr, [], (r', s'), by simp, h, .ret _⟩

/-! ### The rule of invariants -/

/-- What is assumed of the environment and what is asked of a procedure. -/
structure Rules (σ Op : Type) (Ans : Op → Type) where
  /-- What the environment is assumed to answer. -/
  fair : Call Op Ans → Prop
  /-- The calls that may be made. -/
  permits : Call Op Ans → Prop
  /-- The states that may be reached. -/
  good : σ → Prop
  /-- How the state may move. -/
  moves : σ → σ → Prop
  moves_refl : ∀ s, moves s s
  moves_trans : ∀ {s₁ s₂ s₃}, moves s₁ s₂ → moves s₂ s₃ → moves s₁ s₃

/-- How a procedure that started in `s` may end. -/
def Rules.Ends (ρ : Rules σ Op Ans) (s : σ) (R : α → Prop) (r : Except ε α × σ) : Prop :=
  ρ.good r.2 ∧ ρ.moves s r.2 ∧ ∀ a, r.1 = .ok a → R a

/-- From a good state, under fair answers, the procedure keeps to the rules, and a value it
returns satisfies `R`. -/
def Keeps (ρ : Rules σ Op Ans) (m : Proc σ ε Op Ans α) (R : α → Prop) : Prop :=
  ∀ s, ρ.good s → (m s).Ensures ρ.fair ρ.permits (ρ.Ends s R)

/-- The same from the state `s` alone; `R` may speak of the state in which a value is returned. -/
def KeepsAt (ρ : Rules σ Op Ans) (s : σ) (m : Proc σ ε Op Ans α) (R : α → σ → Prop) : Prop :=
  (m s).Ensures ρ.fair ρ.permits fun r =>
    ρ.good r.2 ∧ ρ.moves s r.2 ∧ ∀ a, r.1 = .ok a → R a r.2

namespace KeepsAt

variable {ρ : Rules σ Op Ans} {m : Proc σ ε Op Ans α} {f : α → Proc σ ε Op Ans β}
  {R R' : α → σ → Prop} {Q : β → σ → Prop}

theorem relax {ρ' : Rules σ Op Ans} (h : KeepsAt ρ s m R) (hfair : ∀ c, ρ'.fair c → ρ.fair c)
    (hpermits : ∀ c, ρ.permits c → ρ'.permits c)
    (hends : ∀ t, ρ.good t → ρ.moves s t → ρ'.good t ∧ ρ'.moves s t)
    (hR : ∀ a t, ρ.moves s t → R a t → R' a t) : KeepsAt ρ' s m R' := by
  refine Prog.Ensures.mono h hfair hpermits ?_
  rintro r ⟨hg, hm, hr⟩
  obtain ⟨hg', hm'⟩ := hends r.2 hg hm
  exact ⟨hg', hm', fun a ha => hR a r.2 hm (hr a ha)⟩

theorem weaken (h : KeepsAt ρ s m R) (hR : ∀ a s', R a s' → R' a s') : KeepsAt ρ s m R' :=
  h.relax (fun _ hc => hc) (fun _ hc => hc) (fun _ hg hm => ⟨hg, hm⟩) fun a t _ => hR a t

protected theorem pure {a : α} (hs : ρ.good s) (h : R a s) :
    KeepsAt ρ s (pure a : Proc σ ε Op Ans α) R :=
  ⟨hs, ρ.moves_refl s, fun b hb => by cases hb; exact h⟩

protected theorem throw (hs : ρ.good s) (e : ε) : KeepsAt ρ s (throw e : Proc σ ε Op Ans α) R :=
  ⟨hs, ρ.moves_refl s, fun b hb => by cases hb⟩

/-- **The rule of sequence**, with what is known of the state in between. -/
theorem bind (hm : KeepsAt ρ s m R)
    (hf : ∀ a s', ρ.good s' → ρ.moves s s' → R a s' → KeepsAt ρ s' (f a) Q) :
    KeepsAt ρ s (m >>= f) Q := by
  refine Prog.ensures_bind (Prog.Ensures.imp hm ?_)
  rintro ⟨r, s₁⟩ ⟨hg, hmv, hr⟩
  cases r with
  | ok a =>
    refine Prog.Ensures.imp (hf a s₁ hg hmv (hr a rfl)) ?_
    rintro r' ⟨hg', hmv', hr'⟩
    exact ⟨hg', ρ.moves_trans hmv hmv', hr'⟩
  | error e => exact ⟨hg, hmv, fun b hb => by cases hb⟩

theorem get_bind {k : σ → Proc σ ε Op Ans β} (h : KeepsAt ρ s (k s) Q) :
    KeepsAt ρ s (Proc.get >>= k) Q := h

theorem orThrow_bind {o : Option α} {e : ε} (hs : ρ.good s)
    (h : ∀ a, o = some a → KeepsAt ρ s (f a) Q) : KeepsAt ρ s (Proc.orThrow o e >>= f) Q := by
  cases o with
  | some a => exact h a rfl
  | none => exact KeepsAt.throw hs e

theorem modify {g : σ → σ} {R : Unit → σ → Prop} (hg : ρ.good (g s)) (hm : ρ.moves s (g s))
    (h : R () (g s)) : KeepsAt ρ s (Proc.modify g : Proc σ ε Op Ans Unit) R :=
  ⟨hg, hm, fun _ _ => h⟩

theorem modifyGet {g : σ → σ × α} (hg : ρ.good (g s).1) (hm : ρ.moves s (g s).1)
    (h : R (g s).2 (g s).1) : KeepsAt ρ s (Proc.modifyGet g : Proc σ ε Op Ans α) R :=
  ⟨hg, hm, fun b hb => by cases hb; exact h⟩

theorem attempt (h : KeepsAt ρ s m R) : KeepsAt ρ s m.attempt fun r t => ∀ a, r = .ok a →
    R a t := by
  refine Prog.ensures_bind (Prog.Ensures.imp h ?_)
  rintro r ⟨hg, hm, hr⟩
  exact ⟨hg, hm, fun b hb => by cases hb; exact hr⟩

/-- A procedure that keeps the rules of a part keeps those of the whole. -/
theorem zoom {τ : Type} {part : σ → τ} {put : τ → σ → σ} {ρ' : Rules τ Op Ans}
    {m : Proc τ ε Op Ans α} {R' : α → τ → Prop} (h : KeepsAt ρ' (part s) m R')
    (hfair : ∀ c, ρ.fair c → ρ'.fair c) (hpermits : ∀ c, ρ'.permits c → ρ.permits c)
    (hput : ∀ t, ρ'.good t → ρ'.moves (part s) t → ρ.good (put t s) ∧ ρ.moves s (put t s))
    (hR : ∀ a t, R' a t → R a (put t s)) : KeepsAt ρ s (m.zoom part put) R := by
  refine Prog.ensures_bind (Prog.Ensures.mono h hfair hpermits ?_)
  rintro r ⟨hg, hm, hr⟩
  obtain ⟨hg', hm'⟩ := hput r.2 hg hm
  exact ⟨hg', hm', fun a ha => hR a r.2 (hr a ha)⟩

end KeepsAt

namespace Keeps

variable {ρ : Rules σ Op Ans} {m : Proc σ ε Op Ans α} {f : α → Proc σ ε Op Ans β}
  {R R' : α → Prop} {Q : β → Prop}

theorem keepsAt (h : Keeps ρ m R) (hs : ρ.good s) : KeepsAt ρ s m fun a _ => R a := h s hs

theorem of_at (h : ∀ s, ρ.good s → KeepsAt ρ s m fun a _ => R a) : Keeps ρ m R := h

theorem weaken (h : Keeps ρ m R) (hR : ∀ a, R a → R' a) : Keeps ρ m R' :=
  of_at fun _ hs => (h.keepsAt hs).weaken fun a _ ha => hR a ha

protected theorem pure {a : α} (h : R a) : Keeps ρ (pure a : Proc σ ε Op Ans α) R :=
  of_at fun _ hs => .pure hs h

protected theorem throw (e : ε) : Keeps ρ (throw e : Proc σ ε Op Ans α) R :=
  of_at fun _ hs => .throw hs e

/-- **The rule of sequence.** -/
theorem bind (hm : Keeps ρ m R) (hf : ∀ a, R a → Keeps ρ (f a) Q) : Keeps ρ (m >>= f) Q :=
  of_at fun _ hs => (hm.keepsAt hs).bind fun a _ hs' _ ha => (hf a ha).keepsAt hs'

theorem pureBind {a : α} (h : Keeps ρ (f a) Q) : Keeps ρ (Pure.pure a >>= f) Q := h

protected theorem ite {c : Prop} [Decidable c] {m' : Proc σ ε Op Ans α} (h : c → Keeps ρ m R)
    (h' : ¬c → Keeps ρ m' R) : Keeps ρ (if c then m else m') R := by
  split
  · next hc => exact h hc
  · next hc => exact h' hc

theorem whenThen {c : Prop} [Decidable c] {step : Proc σ ε Op Ans Unit}
    {rest : Unit → Proc σ ε Op Ans β} (hstep : c → Keeps ρ step fun _ => True)
    (hrest : Keeps ρ (rest ()) Q) : Keeps ρ (if c then step >>= rest else rest ()) Q := by
  split
  · next hc => exact bind (hstep hc) fun _ _ => hrest
  · exact hrest

theorem get {P : σ → Prop} (h : ∀ s, ρ.good s → P s) :
    Keeps ρ (Proc.get : Proc σ ε Op Ans σ) P := by
  intro s hs
  exact ⟨hs, ρ.moves_refl s, fun b hb => by cases hb; exact h s hs⟩

theorem modify {g : σ → σ} (h : ∀ s, ρ.good s → ρ.good (g s) ∧ ρ.moves s (g s)) :
    Keeps ρ (Proc.modify g : Proc σ ε Op Ans Unit) fun _ => True := by
  intro s hs
  exact ⟨(h s hs).1, (h s hs).2, fun _ _ => trivial⟩

/-- **The rule of calls**: the call is permitted whatever the answer, and the answer
is what a fair environment may say. -/
theorem ask {op : Op} {P : Ans op → Prop}
    (h : ∀ x, ρ.fair ⟨op, x⟩ → ρ.permits ⟨op, x⟩ ∧ P x) :
    Keeps ρ (Proc.ask op : Proc σ ε Op Ans (Ans op)) P := by
  intro s hs x hx
  exact ⟨(h x hx).1, hs, ρ.moves_refl s, fun b hb => by cases hb; exact (h x hx).2⟩

theorem attempt (h : Keeps ρ m R) : Keeps ρ m.attempt fun r => ∀ a, r = .ok a → R a :=
  of_at fun _ hs => (h.keepsAt hs).attempt

/-- A procedure that keeps the rules of a part keeps those of the whole. -/
theorem zoom {τ : Type} {part : σ → τ} {put : τ → σ → σ} {ρ' : Rules τ Op Ans}
    {m : Proc τ ε Op Ans α} (h : Keeps ρ' m R) (hfair : ∀ c, ρ.fair c → ρ'.fair c)
    (hpermits : ∀ c, ρ'.permits c → ρ.permits c) (hpart : ∀ s, ρ.good s → ρ'.good (part s))
    (hput : ∀ s t, ρ.good s → ρ'.good t → ρ'.moves (part s) t →
      ρ.good (put t s) ∧ ρ.moves s (put t s)) : Keeps ρ (m.zoom part put) R :=
  of_at fun s hs => (h.keepsAt (hpart s hs)).zoom hfair hpermits (fun t => hput s t hs)
    fun _ _ ha => ha

protected theorem lift {x : Except ε α} (h : ∀ a, x = .ok a → R a) :
    Keeps ρ (Proc.lift x : Proc σ ε Op Ans α) R := by
  cases x with
  | ok a => exact Keeps.pure (h a rfl)
  | error e => exact Keeps.throw e

protected theorem orThrow {o : Option α} {e : ε} (h : ∀ a, o = some a → R a) :
    Keeps ρ (Proc.orThrow o e : Proc σ ε Op Ans α) R := by
  cases o with
  | some a => exact Keeps.pure (h a rfl)
  | none => exact Keeps.throw e

theorem require {o : Option α} {e : ε} (h : ∀ a, Keeps ρ (f a) Q) :
    Keeps ρ (Proc.orThrow o e >>= f) Q :=
  bind (R := fun _ => True) (.orThrow fun _ _ => trivial) fun a _ => h a

theorem guard {c : Prop} [Decidable c] {e : ε} (h : ¬c → Keeps ρ m R) :
    Keeps ρ (if c then throw e else m) R :=
  .ite (fun _ => .throw e) h

/-- **The rule of loops.** -/
theorem forEach {g : α → Proc σ ε Op Ans Unit} {as : List α}
    (h : ∀ a ∈ as, Keeps ρ (g a) fun _ => True) : Keeps ρ (Proc.forEach g as) fun _ => True := by
  induction as with
  | nil => exact Keeps.pure trivial
  | cons a as ih =>
    refine bind (h a List.mem_cons_self) fun _ _ => ?_
    exact ih fun b hb => h b (List.mem_cons_of_mem a hb)

end Keeps

end Proc

end CallPrograms
