/-
Sequences of labelled steps.

A transition system gives each step a label.  `Steps Step A` relates two states
when steps whose labels satisfy `A` lead from one to the other.

* `Steps.inv` — what every step keeps, a sequence of steps keeps;
* `Steps.inv_of_good` — the same under a condition that is known of the last state
  only, as long as a step cannot establish it;
* `Goes.steps` — a list of labels that can be gone through one by one is a sequence of steps;
* `Traces.refine` — along a refinement mapping, a trace of one system is a trace of the other.
-/
import Mathlib.Logic.Relation

namespace LabelledSteps

variable {L S : Type*} {Step : L → S → S → Prop} {A B : L → Prop} {s s₁ s₂ : S}

/-- Zero or more steps with labels in `A`. -/
def Steps (Step : L → S → S → Prop) (A : L → Prop) : S → S → Prop :=
  Relation.ReflTransGen fun s s' => ∃ l, A l ∧ Step l s s'

namespace Steps

theorem refl (s : S) : Steps Step A s s := Relation.ReflTransGen.refl

theorem single {l : L} (hl : A l) (h : Step l s s₁) : Steps Step A s s₁ :=
  Relation.ReflTransGen.single ⟨l, hl, h⟩

theorem trans (h : Steps Step A s s₁) (h' : Steps Step A s₁ s₂) : Steps Step A s s₂ :=
  Relation.ReflTransGen.trans h h'

theorem mono (h : Steps Step A s s₁) (hAB : ∀ l, A l → B l) : Steps Step B s s₁ := by
  induction h with
  | refl => exact refl s
  | tail _ hlast ih =>
    obtain ⟨l, hl, hlast⟩ := hlast
    exact ih.trans (single (hAB l hl) hlast)

theorem simulate {Step' : L → S → S → Prop} (h : Steps Step A s s₁)
    (hstep : ∀ {l s s'}, A l → Step l s s' → Step' l s s') : Steps Step' A s s₁ := by
  induction h with
  | refl => exact refl s
  | tail _ hlast ih =>
    obtain ⟨l, hl, hlast⟩ := hlast
    exact ih.trans (single hl (hstep hl hlast))

/-- **The invariant rule.** -/
theorem inv {P : S → Prop} (h : Steps Step A s s₁)
    (hstep : ∀ {s s' l}, A l → Step l s s' → P s → P s') (hs : P s) : P s₁ := by
  induction h with
  | refl => exact hs
  | tail _ hlast ih =>
    obtain ⟨l, hl, hlast⟩ := hlast
    exact hstep hl hlast ih

/-- **The invariant rule under a condition** on the state reached. -/
theorem inv_of_good {P Good : S → Prop} (h : Steps Step A s s₁)
    (hback : ∀ {s s' l}, A l → Step l s s' → Good s' → Good s)
    (hstep : ∀ {s s' l}, A l → Step l s s' → Good s' → P s → P s') (hs : P s)
    (hgood : Good s₁) : P s₁ := by
  have hall : Good s₁ → P s₁ := by
    refine inv (P := fun s => Good s → P s) h ?_ fun _ => hs
    intro s s' l hl hstep' ih hgood'
    exact hstep hl hstep' hgood' (ih (hback hl hstep' hgood'))
  exact hall hgood

end Steps

/-- The steps with these labels can be taken one after the other, in a system whose steps are given
by what they need and what they do. -/
def Goes (Enabled : S → L → Prop) (effect : S → L → S) : List L → S → Prop
  | [], _ => True
  | l :: ls, s => Enabled s l ∧ Goes Enabled effect ls (effect s l)

theorem Goes.steps {Enabled : S → L → Prop} {effect : S → L → S} {ls : List L}
    (h : Goes Enabled effect ls s) :
    Steps (fun l s s' => Enabled s l ∧ s' = effect s l) (fun _ => True) s (ls.foldl effect s) := by
  induction ls generalizing s with
  | nil => exact .refl s
  | cons l ls ih => exact (Steps.single trivial ⟨h.1, rfl⟩).trans (ih h.2)

/-- A sequence of steps, with its labels. -/
inductive Traces (Step : L → S → S → Prop) : List L → S → S → Prop
  | nil (s : S) : Traces Step [] s s
  | cons {l : L} {ls : List L} {s s₁ s₂ : S} (head : Step l s s₁) (rest : Traces Step ls s₁ s₂) :
      Traces Step (l :: ls) s s₂

namespace Traces

variable {ls : List L}

/-- **The invariant rule for traces.** -/
theorem inv {P : S → Prop} (h : Traces Step ls s s₁)
    (hstep : ∀ {l s s'}, Step l s s' → P s → P s') (hs : P s) : P s₁ := by
  induction h with
  | nil => exact hs
  | cons head _ ih => exact ih (hstep head hs)

/-- **The refinement mapping rule.** -/
theorem refine {T : Type*} {Step' : L → T → T → Prop} {abs : S → T} (h : Traces Step ls s s₁)
    (hstep : ∀ {l s s'}, A l → Step l s s' → Step' l (abs s) (abs s')) (hls : ∀ l ∈ ls, A l) :
    Traces Step' ls (abs s) (abs s₁) := by
  induction h with
  | nil s => exact .nil (abs s)
  | cons head _ ih =>
    have hhead := hstep (hls _ (List.mem_cons_self ..)) head
    exact .cons hhead (ih fun l hl => hls l (List.mem_cons_of_mem _ hl))

end Traces

end LabelledSteps
