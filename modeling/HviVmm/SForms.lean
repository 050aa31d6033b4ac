/-
Reading nested forms: parentheses, comments from `;` to the end of the line, and strings in double
quotes with backslash escapes.

The reader takes one character at a time, so what it has read of a text is where it goes on with the
next one (`feed_append`).

* `feed_after` — what was read before does not matter for what is read then;
* `feed_escaped` — a text whose quotes and backslashes are escaped is read back as it was.
-/
import Mathlib.Data.List.Basic

namespace SForms

inductive Form where
  | atom (text : List Char)
  | str (text : List Char)
  | nil
  | cons (head tail : Form)
  deriving DecidableEq

def Form.list (forms : List Form) : Form := forms.foldr .cons .nil

/-- What the reader is in the middle of. -/
inductive Mode where
  | blank
  | atom (text : List Char)
  | comment
  | str (text : List Char)
  | escape (text : List Char)
  deriving DecidableEq

/-- The forms read so far, and those of the lists that are open, innermost first. -/
structure Reader where
  mode : Mode := .blank
  forms : List Form := []
  opened : List (List Form) := []
  deriving DecidableEq

namespace Reader

def emit (r : Reader) (form : Form) : Reader :=
  match r.opened with
  | [] => { r with mode := .blank, forms := r.forms ++ [form] }
  | forms :: outer => { r with mode := .blank, opened := (forms ++ [form]) :: outer }

/-- A character that does not go on with what was before it; `none` for a parenthesis too many. -/
def start (r : Reader) (c : Char) : Option Reader :=
  if c = '(' then some { r with mode := .blank, opened := [] :: r.opened }
  else if c = ')' then
    match r.opened with
    | [] => none
    | forms :: outer => some ({ r with opened := outer }.emit (.list forms))
  else if c = ';' then some { r with mode := .comment }
  else if c = '"' then some { r with mode := .str [] }
  else if c.isWhitespace then some { r with mode := .blank }
  else some { r with mode := .atom [c] }

/-- Whether a character ends an atom. -/
def delimits (c : Char) : Bool := c.isWhitespace || c ∈ ['(', ')', ';', '"']

def next (r : Reader) (c : Char) : Option Reader :=
  match r.mode with
  | .blank => r.start c
  | .atom text =>
    if delimits c then (r.emit (.atom text)).start c
    else some { r with mode := .atom (text ++ [c]) }
  | .comment => some (if c = '\n' then { r with mode := .blank } else r)
  | .str text =>
    some (if c = '"' then r.emit (.str text)
      else if c = '\\' then { r with mode := .escape text }
      else { r with mode := .str (text ++ [c]) })
  | .escape text => some { r with mode := .str (text ++ [c]) }

def feed (r : Reader) (text : List Char) : Option Reader := text.foldlM next r

/-- The forms of a text that was read to its end. -/
def finish (r : Reader) : Option (List Form) :=
  match r.mode, r.opened with
  | .blank, [] => some r.forms
  | .comment, [] => some r.forms
  | .atom text, [] => some (r.forms ++ [.atom text])
  | _, _ => none

/-- The reader with forms read before. -/
def after (forms : List Form) (r : Reader) : Reader := { r with forms := forms ++ r.forms }

end Reader

/-- The forms of a text; `none` if a parenthesis or a string is not closed. -/
def readForms (text : List Char) : Option (List Form) := do (← Reader.feed {} text).finish

open Reader

variable {r r' : Reader} {text text' : List Char}

theorem feed_append (h : r.feed text = some r') : r.feed (text ++ text') = r'.feed text' := by
  rw [feed, List.foldlM_append, ← feed, h]
  rfl

/-! ### What was read before -/

theorem emit_after (forms : List Form) (r : Reader) (form : Form) :
    (r.after forms).emit form = (r.emit form).after forms := by
  unfold emit
  cases h : r.opened with
  | nil => simp [after, h]
  | cons inner outer => simp [after, h]

theorem start_after (forms : List Form) (r : Reader) (c : Char) :
    (r.after forms).start c = (r.start c).map (after forms) := by
  unfold start
  split_ifs
  · rfl
  · cases h : r.opened with
    | nil => simp [after, h]
    | cons inner outer =>
      simp only [after, h, Option.map_some]
      exact congrArg some (emit_after forms { r with opened := outer } _)
  all_goals rfl

theorem next_after (forms : List Form) (r : Reader) (c : Char) :
    (r.after forms).next c = (r.next c).map (after forms) := by
  obtain ⟨mode, before, opened⟩ := r
  cases mode with
  | blank => exact start_after forms _ c
  | atom text =>
    dsimp only [next, after]
    split_ifs
    · rw [← start_after, ← emit_after]
      rfl
    · rfl
  | comment =>
    dsimp only [next, after]
    split_ifs <;> rfl
  | str text =>
    dsimp only [next, after]
    split_ifs
    · exact congrArg some (emit_after forms ⟨.str text, before, opened⟩ _)
    · rfl
    · rfl
  | escape text => rfl

/-- What was read before stays, and does not matter for what is read then. -/
theorem feed_after (forms : List Form) (h : r.feed text = some r') :
    (r.after forms).feed text = some (r'.after forms) := by
  induction text generalizing r with
  | nil =>
    cases h
    rfl
  | cons c text ih =>
    rw [feed, List.foldlM_cons] at h ⊢
    rw [next_after]
    cases hnext : r.next c with
    | none =>
      rw [hnext] at h
      cases h
    | some r₁ =>
      rw [hnext] at h
      exact ih h

/-! ### Strings -/

/-- Backslashes are escaped, then quotes. -/
def escaped (text : List Char) : List Char :=
  (text.flatMap fun c => if c = '\\' then ['\\', '\\'] else [c]).flatMap
    fun c => if c = '"' then ['\\', '"'] else [c]

theorem escaped_cons (c : Char) (text : List Char) :
    escaped (c :: text) =
      (if c = '\\' then ['\\', '\\'] else if c = '"' then ['\\', '"'] else [c]) ++
      escaped text := by
  unfold escaped
  rw [List.flatMap_cons, List.flatMap_append]
  by_cases hslash : c = '\\'
  · rw [if_pos hslash, if_pos hslash]
    rfl
  · rw [if_neg hslash, if_neg hslash, List.flatMap_singleton]

/-- **An escaped text is read back as it was.** -/
theorem feed_escaped {before : List Char} (hmode : r.mode = .str before) :
    r.feed (escaped text) = some { r with mode := .str (before ++ text) } := by
  induction text generalizing r before with
  | nil =>
    rw [List.append_nil, ← hmode]
    rfl
  | cons c text ih =>
    have hone : r.feed (if c = '\\' then ['\\', '\\'] else if c = '"' then ['\\', '"'] else [c]) =
        some { r with mode := .str (before ++ [c]) } := by
      by_cases hslash : c = '\\'
      · rw [if_pos hslash, hslash, feed, List.foldlM_cons, next, hmode]
        rfl
      · by_cases hquote : c = '"'
        · rw [if_neg hslash, if_pos hquote, hquote, feed, List.foldlM_cons, next, hmode]
          rfl
        · rw [if_neg hslash, if_neg hquote, feed, List.foldlM_cons, next, hmode]
          dsimp only
          rw [if_neg hquote, if_neg hslash]
          rfl
    rw [escaped_cons, feed_append hone, ih rfl, List.append_assoc]
    rfl

end SForms
